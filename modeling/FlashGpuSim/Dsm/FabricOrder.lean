import FlashGpuSim.Dsm.FabricLanes

/-!
Conservation and order of the packets over whole runs. The lanes give both; what
is added here is the history of the granted flits, which says that a packet is
delivered after exactly its own flits were sent.
-/

namespace FlashGpuSim

open Lib Relation DsmPacket

namespace FabricBuffers

variable {b b' : FabricBuffers} {n now : Nat} {cfg : DsmFabricConfig} {vc : DsmVc}
  {sm dst : Nat} {p q : DsmPacket} {rest : List DsmPacket} {k : LaneKey}

/-- Accepted packets are numbered by `serial` and addressed inside the GPC, they are
popped at their own port, and none is lost or made up. -/
structure Logged (n : Nat) (b : FabricBuffers) : Prop where
  serials : b.accepted.map serial = List.range b.accepted.length
  addressed : ∀ p ∈ b.accepted, p.networkSrcSmId < n ∧ p.networkDstSmId < n
  ports : ∀ e ∈ b.popped, e.2.2.vc = e.1 ∧ e.2.2.networkDstSmId = e.2.1
  conserved : b.lanes.Conserved

theorem Logged.nodup (h : b.Logged n) : (b.accepted.map serial).Nodup := by
  rw [h.serials]
  exact List.nodup_range

theorem Logged.serial_inj (h : b.Logged n) (hp : p ∈ b.accepted) (hq : q ∈ b.accepted)
    (hserial : p.serial = q.serial) : p = q :=
  List.inj_on_of_nodup_map h.nodup hp hq hserial

/-- The packets of a lane, popped ones first, have different serial numbers. -/
theorem Logged.lane_nodup (h : b.Logged n) (k : LaneKey) :
    (((onLane k b.poppedPackets).map header ++ b.lane k).map serial).Nodup := by
  have hperm := (h.conserved k).map serial
  refine hperm.nodup_iff.mp ?_
  have hsub : ((onLane k b.accepted).map header).map serial =
      (onLane k b.accepted).map serial := by
    rw [List.map_map]
    rfl
  change (((onLane k b.accepted).map header).map serial).Nodup
  rw [hsub]
  exact h.nodup.sublist (List.filter_sublist.map serial)

/-- A header on a lane, popped or in flight, is the header of an accepted packet. -/
theorem Logged.accepted_of_lane (h : b.Logged n)
    (hp : p ∈ (onLane k b.poppedPackets).map header ++ b.lane k) :
    ∃ a ∈ b.accepted, a.laneKey = k ∧ a.header = p := by
  have hmem := (h.conserved k).mem_iff.mpr hp
  obtain ⟨a, ha, heq⟩ := List.mem_map.mp hmem
  obtain ⟨hacc, hkey⟩ := List.mem_filter.mp ha
  exact ⟨a, hacc, of_decide_eq_true hkey, heq⟩

/-- Equal serial numbers are only found on one lane. -/
theorem Logged.same_lane {k' : LaneKey} (h : b.Logged n)
    (hp : p.header ∈ (onLane k b.poppedPackets).map header ++ b.lane k)
    (hq : q.header ∈ (onLane k' b.poppedPackets).map header ++ b.lane k')
    (hserial : p.serial = q.serial) : k = k' := by
  obtain ⟨a, ha, hak, hap⟩ := h.accepted_of_lane hp
  obtain ⟨c, hc, hck, hcq⟩ := h.accepted_of_lane hq
  have hsame : a.serial = c.serial := by
    calc
      a.serial = a.header.serial := rfl
      _ = p.serial := by rw [hap]; rfl
      _ = q.serial := hserial
      _ = c.header.serial := by rw [hcq]; rfl
      _ = c.serial := rfl
  rw [← hak, ← hck, h.serial_inj ha hc hsame]

/-- A packet that stands somewhere else than the head `p` of its queue. -/
inductive Elsewhere (b : FabricBuffers) (vc : DsmVc) (sm dst : Nat) (rest : List DsmPacket)
    (q : DsmPacket) : Prop
  | behind (h : q ∈ rest)
  | queued (vc' : DsmVc) (sm' dst' : Nat) (hne : ¬ (vc' = vc ∧ sm' = sm ∧ dst' = dst))
      (h : q ∈ b.queue vc' sm' dst')
  | delivered (vc' : DsmVc) (dst' : Nat) (h : q ∈ b.ej vc' dst')
  | popped (h : q ∈ b.poppedPackets)

/-- The head of a queue shares its serial number with no other packet. -/
theorem Logged.serial_ne (h : b.Logged n)
    (hq : b.queue vc sm dst = p :: rest) (helse : b.Elsewhere vc sm dst rest q) :
    q.serial ≠ p.serial := by
  have hlane : b.lane ⟨vc, sm, dst⟩ =
      (b.ejectionLane ⟨vc, sm, dst⟩).map header ++ p.header :: rest.map header := by
    simp [lane, hq]
  have hp : p.header ∈ (onLane ⟨vc, sm, dst⟩ b.poppedPackets).map header ++
      b.lane ⟨vc, sm, dst⟩ := by
    rw [hlane]
    simp
  have hnodup := h.lane_nodup ⟨vc, sm, dst⟩
  rw [hlane, ← List.append_assoc, List.map_append, List.map_cons] at hnodup
  -- on the lane of `p`, everything before and after it has another serial number
  obtain ⟨hnot, -⟩ := List.nodup_cons.mp (List.nodup_middle.mp hnodup)
  have hahead : ∀ r ∈ (onLane ⟨vc, sm, dst⟩ b.poppedPackets) ++ b.ejectionLane ⟨vc, sm, dst⟩,
      r.serial ≠ p.serial := by
    intro r hr hsame
    refine hnot (List.mem_append_left _ ?_)
    rw [← List.map_append]
    exact List.mem_map.mpr ⟨r.header, List.mem_map_of_mem hr, hsame⟩
  have hbehind : ∀ r ∈ rest, r.serial ≠ p.serial := by
    intro r hr hsame
    refine hnot (List.mem_append_right _ ?_)
    exact List.mem_map.mpr ⟨r.header, List.mem_map_of_mem hr, hsame⟩
  cases helse with
  | behind hr => exact hbehind q hr
  | queued vc' sm' dst' hne hr =>
    intro hsame
    have hqlane : q.header ∈ (onLane ⟨vc', sm', dst'⟩ b.poppedPackets).map header ++
        b.lane ⟨vc', sm', dst'⟩ :=
      List.mem_append_right _ (List.mem_map_of_mem (List.mem_append_right _ hr))
    have hkey := h.same_lane hqlane hp hsame
    simp only [LaneKey.mk.injEq] at hkey
    exact hne hkey
  | delivered vc' dst' hr =>
    intro hsame
    have hmem : q ∈ b.ejectionLane ⟨vc', q.networkSrcSmId, dst'⟩ :=
      List.mem_filter.mpr ⟨hr, by simp⟩
    have hqlane : q.header ∈ (onLane ⟨vc', q.networkSrcSmId, dst'⟩ b.poppedPackets).map header ++
        b.lane ⟨vc', q.networkSrcSmId, dst'⟩ :=
      List.mem_append_right _ (List.mem_map_of_mem (List.mem_append_left _ hmem))
    have hkey := h.same_lane hqlane hp hsame
    rw [hkey] at hmem
    exact hahead q (List.mem_append_right _ hmem) hsame
  | popped hr =>
    intro hsame
    have hmem : q ∈ onLane q.laneKey b.poppedPackets := List.mem_filter.mpr ⟨hr, by simp⟩
    have hqlane : q.header ∈ (onLane q.laneKey b.poppedPackets).map header ++
        b.lane q.laneKey := List.mem_append_left _ (List.mem_map_of_mem hmem)
    have hkey := h.same_lane hqlane hp hsame
    rw [hkey] at hmem
    exact hahead q (List.mem_append_left _ hmem) hsame

/-! ### The history of the granted flits -/

/-- A packet still queued, one delivered and one popped have been granted the flits
they no longer wait for. -/
structure Counted (b : FabricBuffers) : Prop where
  queued : ∀ vc src dst, ∀ p ∈ b.queue vc src dst,
    b.granted.count p.serial + p.remainingFlits = p.totalFlits
  delivered : ∀ vc dst, ∀ p ∈ b.ej vc dst, b.granted.count p.serial = p.totalFlits
  popped : ∀ p ∈ b.poppedPackets, b.granted.count p.serial = p.totalFlits
  known : ∀ s ∈ b.granted, s < b.accepted.length

theorem FlitMove.counted (hmove : FlitMove n now vc sm b b') (h : b.Counted)
    (hlog : b.Logged n) : b'.Counted := by
  cases hmove with
  | @reserve dst p rest _ _ hq _ _ =>
    refine ⟨?_, h.delivered, h.popped, h.known⟩
    refine forall_replaced h.queued ?_ (reserveMove_queue b vc sm dst p rest)
    intro r hr
    rcases List.mem_cons.mp hr with rfl | hr
    · exact h.queued vc sm dst p (by rw [hq]; exact List.mem_cons_self)
    · exact h.queued vc sm dst r (by rw [hq]; exact List.mem_cons_of_mem p hr)
  | @flit dst p rest _ _ hq hflit _ =>
    have hp : p ∈ b.queue vc sm dst := by rw [hq]; exact List.mem_cons_self
    have hcount := h.queued vc sm dst p hp
    have hown : (b.granted ++ [p.serial]).count p.serial = b.granted.count p.serial + 1 := by
      simp
    have hother : ∀ r, b.Elsewhere vc sm dst rest r →
        (b.granted ++ [p.serial]).count r.serial = b.granted.count r.serial := by
      intro r hr
      have hne := hlog.serial_ne hq hr
      simp [List.count_append, Ne.symm hne]
    refine ⟨?_, ?_, ?_, ?_⟩
    · intro vc' sm' dst' r hr
      rw [flitMove_granted]
      rw [flitMove_queue] at hr
      split at hr
      · have hrest : ∀ r ∈ rest, (b.granted ++ [p.serial]).count r.serial +
            r.remainingFlits = r.totalFlits := by
          intro r hr
          rw [hother r (.behind hr)]
          exact h.queued vc sm dst r (by rw [hq]; exact List.mem_cons_of_mem p hr)
        split at hr
        · rcases List.mem_cons.mp hr with rfl | hr
          · simp only [hown]
            omega
          · exact hrest r hr
        · exact hrest r hr
      · rename_i hne
        rw [hother r (.queued vc' sm' dst' hne hr)]
        exact h.queued vc' sm' dst' r hr
    · intro vc' dst' r hr
      rw [flitMove_granted]
      have hold : ∀ vc' dst', ∀ r ∈ b.ej vc' dst',
          (b.granted ++ [p.serial]).count r.serial = r.totalFlits := by
        intro vc' dst' r hr
        rw [hother r (.delivered vc' dst' hr)]
        exact h.delivered vc' dst' r hr
      rw [flitMove_ej] at hr
      split at hr
      · rename_i hlast
        rcases List.mem_append.mp hr with hr | hr
        · exact hold _ _ r hr
        · rw [List.mem_singleton.mp hr]
          simp only [arrived, hown]
          omega
      · exact hold _ _ r hr
    · intro r hr
      have hpop : (b.flitMove now vc sm dst p rest).poppedPackets = b.poppedPackets := by
        unfold poppedPackets
        rw [flitMove_popped]
      rw [hpop] at hr
      rw [flitMove_granted, hother r (.popped hr)]
      exact h.popped r hr
    · intro s hs
      rw [flitMove_granted] at hs
      rw [flitMove_accepted]
      rcases List.mem_append.mp hs with hs | hs
      · exact h.known s hs
      · -- the flit belongs to an accepted packet
        rw [List.mem_singleton.mp hs]
        have hlane : p.header ∈ (onLane ⟨vc, sm, dst⟩ b.poppedPackets).map header ++
            b.lane ⟨vc, sm, dst⟩ :=
          List.mem_append_right _ (List.mem_map_of_mem (List.mem_append_right _ hp))
        obtain ⟨a, ha, -, heq⟩ := hlog.accepted_of_lane hlane
        have hserial : a.serial = p.serial := by
          have hheader := congrArg serial heq
          exact hheader
        have hmem : a.serial ∈ b.accepted.map serial := List.mem_map_of_mem ha
        rw [hlog.serials, hserial] at hmem
        exact List.mem_range.mp hmem

theorem FlitMove.logged (hmove : FlitMove n now vc sm b b') (h : b.Logged n)
    (hwf : b.WF n cfg) : b'.Logged n := by
  have hsame : b'.accepted = b.accepted ∧ b'.popped = b.popped := by
    cases hmove with
    | reserve => exact ⟨rfl, rfl⟩
    | flit => exact ⟨flitMove_accepted .., flitMove_popped ..⟩
  refine ⟨by rw [hsame.1]; exact h.serials, by rw [hsame.1]; exact h.addressed,
    by rw [hsame.2]; exact h.ports, ?_⟩
  rw [hmove.lanes_eq hwf]
  exact h.conserved

theorem CycleMoves.history (hmoves : CycleMoves n now b b') (hwf : b.WF n cfg)
    (hlog : b.Logged n) (h : b.Counted) : b'.Logged n ∧ b'.Counted := by
  induction hmoves with
  | refl => exact ⟨hlog, h⟩
  | tail hpre hmove ih =>
    obtain ⟨vc, sm, hmove⟩ := hmove
    have hwf' := CycleMoves.wf hpre hwf
    exact ⟨hmove.logged ih.1 hwf', hmove.counted ih.2 ih.1⟩

theorem popMove_history (hej : b.ej vc dst = p :: rest) (hwf : b.WF n cfg)
    (hlog : b.Logged n) (h : b.Counted) :
    (b.popMove vc dst p rest).Logged n ∧ (b.popMove vc dst p rest).Counted := by
  have hport := hwf.ej_addressed vc dst p (by rw [hej]; exact List.mem_cons_self)
  have hsub : ∀ vc' dst', ∀ r ∈ (b.popMove vc dst p rest).ej vc' dst', r ∈ b.ej vc' dst' := by
    intro vc' dst' r hr
    rw [popMove_ej] at hr
    split at hr
    · rename_i heq
      rw [heq.1, heq.2, hej]
      exact List.mem_cons_of_mem p hr
    · exact hr
  refine ⟨⟨hlog.serials, hlog.addressed, ?_,
    (popMove_step (fun _ _ => True) hwf hej).conserved hlog.conserved⟩,
    ⟨h.queued, fun vc' dst' r hr => h.delivered vc' dst' r (hsub vc' dst' r hr), ?_, h.known⟩⟩
  · intro e he
    rcases List.mem_append.mp he with he | he
    · exact hlog.ports e he
    · rw [List.mem_singleton.mp he]
      exact ⟨hport.1, hport.2.2⟩
  intro r hr
  have hpop : (b.popMove vc dst p rest).poppedPackets = b.poppedPackets ++ [p] := by
    simp [poppedPackets, popMove]
  rw [hpop] at hr
  rcases List.mem_append.mp hr with hr | hr
  · exact h.popped r hr
  · rw [List.mem_singleton.mp hr]
    exact h.delivered vc dst p (by rw [hej]; exact List.mem_cons_self)

theorem storeMove_history {pkt : DsmPacket} (hlog : b.Logged n) (h : b.Counted)
    (hserial : pkt.serial = b.accepted.length)
    (hrem : pkt.remainingFlits = pkt.totalFlits)
    (hin : pkt.networkSrcSmId < n ∧ pkt.networkDstSmId < n) :
    (b.storeMove pkt).Logged n ∧ (b.storeMove pkt).Counted := by
  have hstep : Lanes.Step (fun _ _ => True) b.lanes (b.storeMove pkt).lanes :=
    storeMove_step trivial
  refine ⟨⟨?_, ?_, hlog.ports, hstep.conserved hlog.conserved⟩, ⟨?_, h.delivered, h.popped, ?_⟩⟩
  · change (b.accepted ++ [pkt]).map serial = List.range (b.accepted ++ [pkt]).length
    simp [hlog.serials, hserial, List.range_succ]
  · intro r hr
    rcases List.mem_append.mp hr with hr | hr
    · exact hlog.addressed r hr
    · rw [List.mem_singleton.mp hr]
      exact hin
  · refine forall_replaced h.queued ?_ (storeMove_queue b pkt)
    intro r hr
    rcases List.mem_cons.mp ((insertQueue_perm _ _).mem_iff.mp hr) with rfl | hr
    · -- nothing of the new packet has been granted yet
      have hnone : b.granted.count r.serial = 0 := by
        refine List.count_eq_zero.mpr (fun hmem => ?_)
        have hlt := h.known r.serial hmem
        omega
      change b.granted.count r.serial + _ = _
      omega
    · exact h.queued _ _ _ r hr
  · intro s hs
    have hlt := h.known s hs
    change s < (b.accepted ++ [pkt]).length
    simp only [List.length_append, List.length_singleton]
    omega

/-! ### All packets in flight -/

/-- Both virtual channels. -/
def vcs : List DsmVc := [.request, .response]

/-- The packets in the ejection queues. -/
def inEjection (b : FabricBuffers) (n : Nat) : List DsmPacket :=
  vcs.flatMap fun vc => (List.range n).flatMap fun dst => b.ej vc dst

/-- The packets in the VOQs. -/
def inVoqs (b : FabricBuffers) (n : Nat) : List DsmPacket :=
  vcs.flatMap fun vc => (List.range n).flatMap fun src =>
    (List.range n).flatMap fun dst => b.queue vc src dst

theorem flatMap_vcs_single (g : DsmVc → List DsmPacket) (vc : DsmVc)
    (hother : ∀ vc', vc' ≠ vc → g vc' = []) : vcs.flatMap g = g vc := by
  cases vc with
  | request => simp [vcs, hother .response (by decide)]
  | response => simp [vcs, hother .request (by decide)]

theorem onLane_flatMap {ι : Type} (k : LaneKey) (l : List ι) (g : ι → List DsmPacket) :
    onLane k (l.flatMap g) = l.flatMap (fun i => onLane k (g i)) := List.filter_flatMap

theorem onLane_eq_nil {l : List DsmPacket} (h : ∀ p ∈ l, p.laneKey ≠ k) : onLane k l = [] :=
  List.filter_eq_nil_iff.mpr (fun p hp => by simpa using h p hp)

/-- The lane `k` of the ejection queues. -/
theorem onLane_inEjection (h : b.WF n cfg) (k : LaneKey) :
    onLane k (b.inEjection n) = b.ejectionLane k := by
  have hnone : ∀ vc dst, (vc ≠ k.vc ∨ dst ≠ k.dst) → onLane k (b.ej vc dst) = [] := by
    intro vc dst hne
    refine onLane_eq_nil (fun p hp hkey => ?_)
    obtain ⟨hvc, -, hdst⟩ := h.ej_addressed vc dst p hp
    rcases hne with hne | hne
    · exact hne (by rw [← hkey, ← hvc]; rfl)
    · exact hne (by rw [← hkey, ← hdst]; rfl)
  have hself : onLane k (b.ej k.vc k.dst) = b.ejectionLane k := by
    refine List.filter_congr (fun p hp => ?_)
    obtain ⟨hvc, -, hdst⟩ := h.ej_addressed k.vc k.dst p hp
    have hiff : p.laneKey = k ↔ p.networkSrcSmId = k.src := by
      constructor
      · intro hkey
        rw [← hkey]
        rfl
      · intro hsrc
        exact (eq_laneKey hvc.symm hsrc.symm hdst.symm).symm
    simp [hiff]
  unfold inEjection
  simp only [onLane_flatMap]
  rw [flatMap_vcs_single _ k.vc (fun vc hvc =>
    flatMap_range_nil _ (fun dst _ => hnone vc dst (.inl hvc)))]
  by_cases hdst : k.dst < n
  · rw [flatMap_range_single _ hdst (fun dst hne => hnone k.vc dst (.inr hne))]
    exact hself
  · rw [flatMap_range_nil _ (fun dst hlt =>
      hnone k.vc dst (.inr (fun hc => hdst (hc ▸ hlt)))), ← hself,
      h.ej_outside k.vc k.dst hdst]
    rfl

/-- The lane `k` of the VOQs. -/
theorem onLane_inVoqs (h : b.WF n cfg) (k : LaneKey) :
    onLane k (b.inVoqs n) = b.queue k.vc k.src k.dst := by
  have hnone : ∀ vc src dst, (vc ≠ k.vc ∨ src ≠ k.src ∨ dst ≠ k.dst) →
      onLane k (b.queue vc src dst) = [] := by
    intro vc src dst hne
    refine onLane_eq_nil (fun p hp hkey => ?_)
    obtain ⟨hvc, hsrc, hdst⟩ := h.addressed vc src dst p hp
    rcases hne with hne | hne | hne
    · exact hne (by rw [← hkey, ← hvc]; rfl)
    · exact hne (by rw [← hkey, ← hsrc]; rfl)
    · exact hne (by rw [← hkey, ← hdst]; rfl)
  have hself : onLane k (b.queue k.vc k.src k.dst) = b.queue k.vc k.src k.dst := by
    refine List.filter_eq_self.mpr (fun p hp => ?_)
    obtain ⟨hvc, hsrc, hdst⟩ := h.addressed _ _ _ p hp
    exact decide_eq_true (eq_laneKey hvc.symm hsrc.symm hdst.symm).symm
  unfold inVoqs
  simp only [onLane_flatMap]
  rw [flatMap_vcs_single _ k.vc (fun vc hvc =>
    flatMap_range_nil _ (fun src _ => flatMap_range_nil _ (fun dst _ =>
      hnone vc src dst (.inl hvc))))]
  by_cases hin : k.src < n ∧ k.dst < n
  · rw [flatMap_range_single _ hin.1 (fun src hne =>
        flatMap_range_nil _ (fun dst _ => hnone k.vc src dst (.inr (.inl hne)))),
      flatMap_range_single _ hin.2 (fun dst hne =>
        hnone k.vc k.src dst (.inr (.inr hne)))]
    exact hself
  · rw [flatMap_range_nil _ (fun src hsrc => flatMap_range_nil _ (fun dst hdst =>
      hnone k.vc src dst ?_)), h.outside k.vc k.src k.dst hin]
    by_cases hs : src = k.src
    · exact .inr (.inr (fun hd => hin ⟨hs ▸ hsrc, hd ▸ hdst⟩))
    · exact .inr (.inl hs)

theorem onLane_map_header (k : LaneKey) (l : List DsmPacket) :
    (l.map header).filter (fun p => p.laneKey = k) = (onLane k l).map header := by
  unfold onLane
  rw [List.filter_map]
  rfl

/-- Lane by lane, the accepted packets are the popped ones, the delivered ones and
the queued ones. -/
theorem Logged.perm (h : b.Logged n) (hwf : b.WF n cfg) :
    (b.accepted.map header).Perm
      ((b.poppedPackets ++ b.inEjection n ++ b.inVoqs n).map header) := by
  refine perm_of_filter_perm laneKey (fun k => ?_)
  rw [onLane_map_header, onLane_map_header, onLane_append, onLane_append,
    onLane_inEjection hwf, onLane_inVoqs hwf, List.append_assoc, List.map_append]
  exact h.conserved k

end FabricBuffers

namespace DsmFabric

open FabricBuffers

variable {f f' : DsmFabric} {topo : GpuTopology} {gpc : Nat} {cfg : DsmFabricConfig}

/-- The invariant with the histories. -/
structure HistoryInv (f : DsmFabric) : Prop where
  inv : f.Inv
  logged : f.toFabricBuffers.Logged f.n
  counted : f.toFabricBuffers.Counted

theorem step_history (h : f.HistoryInv) {op : Op} (hop : FreshOp op)
    (hok : f.step op = .ok f') : f'.HistoryInv := by
  have hinv' := (step_inv h.inv hop).of_ok hok
  cases op with
  | inject packet =>
    simp only [step, inject_eq h.inv] at hok
    obtain rfl := Except.ok.inj hok
    split
    · rename_i hacc
      obtain ⟨hsrc, hdst, -⟩ := accepts_spec hacc
      obtain ⟨hlog, hcount⟩ := storeMove_history h.logged h.counted
        (queuedPacket_serial f packet) (queuedPacket_fresh (f := f) hop).2
        (by simpa using ⟨hsrc, hdst⟩)
      rw [if_pos hacc] at hinv'
      exact ⟨hinv', hlog, hcount⟩
    · exact h
  | cycle now =>
    have hcycled := (cycle_spec h.inv now).of_ok hok
    obtain ⟨hlog, hcount⟩ := CycleMoves.history hcycled.moves h.inv.buffers h.logged h.counted
    refine ⟨hinv', ?_, hcount⟩
    rw [hcycled.setup.n]
    exact hlog
  | pop dst vc =>
    simp only [step, pop_eq h.inv] at hok
    obtain rfl := Except.ok.inj hok
    cases htop : f.top dst vc with
    | none => exact h
    | some p =>
      obtain ⟨-, -, rest, hej⟩ := top_spec htop
      simp only [htop] at hinv'
      have hhist := popMove_history hej h.inv.buffers h.logged h.counted
      refine ⟨hinv', ?_, ?_⟩
      · simp only [poppedHead, hej]
        exact hhist.1
      · simp only [poppedHead, hej]
        exact hhist.2

theorem construct_history {topo : GpuTopology} {gpc : Nat} {cfg : DsmFabricConfig}
    (h : construct topo gpc cfg = .ok f) : f.HistoryInv := by
  obtain ⟨hinv, -, hbuf⟩ := construct_spec h
  refine ⟨hinv, ?_, ?_⟩
  · rw [hbuf]
    exact ⟨rfl, fun p hp => (nomatch hp), fun e he => (nomatch he),
      fun k => List.Perm.refl _⟩
  · rw [hbuf]
    exact ⟨fun _ _ _ p hp => (nomatch hp), fun _ _ p hp => (nomatch hp),
      fun p hp => (nomatch hp), fun s hs => (nomatch hs)⟩

/-- No read command enters a VOQ that holds an earlier read command and data. -/
def NoReadOvertaking (f : DsmFabric) : Op → Prop
  | .inject packet =>
    ¬ (f.accepts packet = true ∧ packet.packetClass = .readCommand ∧
      (∃ q ∈ f.queue packet.vc packet.networkSrcSmId packet.networkDstSmId,
        q.packetClass ≠ .readCommand) ∧
      ∃ q ∈ f.queue packet.vc packet.networkSrcSmId packet.networkDstSmId,
        q.packetClass = .readCommand)
  | _ => True

instance (f : DsmFabric) : DecidablePred f.NoReadOvertaking
  | .inject packet => by
    unfold NoReadOvertaking
    infer_instance
  | .cycle _ => inferInstanceAs (Decidable True)
  | .pop _ _ => inferInstanceAs (Decidable True)

/-- The packets that may enter in front of others: a read command in front of
packets none of which is a read command. -/
def ClassFits (pkt : DsmPacket) (behind : List DsmPacket) : Prop :=
  behind = [] ∨
    (pkt.packetClass = .readCommand ∧ ∀ q ∈ behind, q.packetClass ≠ .readCommand)

theorem insertFits_of_noReadOvertaking {op : Op} (h : NoReadOvertaking f op) :
    InsertFits ClassFits f op := by
  cases op with
  | cycle now => trivial
  | pop dst vc => trivial
  | inject packet =>
    intro hacc
    unfold behindOf
    split
    · rename_i hpass
      rw [queuedPacket_class] at hpass
      refine .inr ⟨by rw [header_class, queuedPacket_class]; exact hpass.1, ?_⟩
      intro q hq hread
      obtain ⟨r, hr, rfl⟩ := List.mem_map.mp hq
      exact h ⟨hacc, hpass.1, hpass.2, r, hr, hread⟩
    · exact .inl rfl

/-- A class enters behind all packets of its own class. -/
theorem classFits_select (cls : DsmPacketClass) {pkt : DsmPacket} {behind : List DsmPacket}
    (h : ClassFits pkt behind) (hcls : decide (pkt.packetClass = cls) = true) :
    behind.filter (fun q => decide (q.packetClass = cls)) = [] := by
  rcases h with rfl | ⟨hread, hdata⟩
  · rfl
  · refine List.filter_eq_nil_iff.mpr (fun q hq => ?_)
    rw [← of_decide_eq_true hcls, hread]
    simpa using hdata q hq

/-- Packets of one class leave each lane in the order in which they were injected. -/
def ClassOrdered (f : DsmFabric) : Prop :=
  ∀ cls, f.lanes.Ordered (fun p => decide (p.packetClass = cls))

theorem step_classOrdered (hinv : f.Inv) {op : Op} (hop : NoReadOvertaking f op)
    (hok : f.step op = .ok f') (h : f.ClassOrdered) : f'.ClassOrdered := by
  have hsteps := step_lanes hinv (insertFits_of_noReadOvertaking hop) hok
  exact fun cls => hsteps.ordered (fun _ _ hfits hcls => classFits_select cls hfits hcls) (h cls)

/-- What the fabric owes its endpoints: conservation, delivery of whole packets to
their own address, and order within a class. -/
structure Delivers (f : DsmFabric) : Prop where
  own_port : ∀ e ∈ f.popped, e.2.2.vc = e.1 ∧ e.2.2.networkDstSmId = e.2.1
  whole : ∀ e ∈ f.popped, f.granted.count e.2.2.serial = e.2.2.totalFlits
  once : (f.popped.map (fun e => e.2.2.serial)).Nodup
  numbered : (f.accepted.map serial).Nodup
  conserved : (f.accepted.map header).Perm
    ((f.poppedPackets ++ f.inEjection f.n ++ f.inVoqs f.n).map header)
  in_order : ∀ k cls,
    ((onLane k f.accepted).filter (fun p => p.packetClass = cls)).map header =
      ((onLane k f.poppedPackets ++ f.ejectionLane k ++
        f.queue k.vc k.src k.dst).filter (fun p => p.packetClass = cls)).map header

theorem HistoryInv.delivers (h : f.HistoryInv) (horder : f.ClassOrdered) :
    f.Delivers := by
  have hperm := h.logged.perm h.inv.buffers
  refine ⟨h.logged.ports, ?_, ?_, h.logged.nodup, hperm, ?_⟩
  · intro e he
    exact h.counted.popped e.2.2 (List.mem_map_of_mem he)
  · -- a popped packet occurs once among the accepted ones
    have hserial := hperm.map serial
    rw [List.map_map, List.map_map] at hserial
    have hnodup : ((f.poppedPackets ++ f.inEjection f.n ++ f.inVoqs f.n).map serial).Nodup :=
      hserial.nodup_iff.mp h.logged.nodup
    rw [List.append_assoc, List.map_append] at hnodup
    have hpopped := (List.nodup_append.mp hnodup).1
    rw [poppedPackets, List.map_map] at hpopped
    exact hpopped
  · intro k cls
    have hlane := horder cls k
    have hmap : ∀ l : List DsmPacket, (l.map header).filter (fun p => p.packetClass = cls) =
        (l.filter (fun p => p.packetClass = cls)).map header := by
      intro l
      rw [List.filter_map]
      rfl
    rw [← hmap, ← hmap, List.append_assoc, List.map_append, List.filter_append]
    exact hlane

/-- Conservation and order of the packets. In every run with packets of at least one
flit and without a read command overtaking another one, every popped packet was
granted exactly its flits and left at its own port, the accepted packets are the
popped, delivered and queued ones, and each class keeps its order on every lane. -/
theorem packets_delivered_in_order
    (h : Reachable topo gpc cfg (fun f op => FlitOp f op ∧ NoReadOvertaking f op) f) :
    f.Delivers := by
  obtain ⟨f₀, hbuilt, hrun⟩ := h
  have hboth : f.HistoryInv ∧ f.ClassOrdered := by
    refine hrun.invariant (fun g => g.HistoryInv ∧ g.ClassOrdered) ?_ ?_
    · refine ⟨construct_history hbuilt, fun cls k => ?_⟩
      rw [(construct_spec hbuilt).2.2]
      rfl
    · rintro g g' op ⟨hhist, horder⟩ ⟨hflit, hread⟩ hok
      exact ⟨step_history hhist hflit.fresh hok, step_classOrdered hhist.inv hread hok horder⟩
  exact hboth.1.delivers hboth.2

/-- A store of two flits and two read commands of one SM, in this order. -/
def readRun : List Op :=
  [.inject (mkPkt 0 1 .writeData 64 0), .inject (mkPkt 0 1 .readCommand 4 0),
    .inject (mkPkt 0 1 .readCommand 8 64), .cycle 2, .cycle 4]

/-- The second read command is put in front of the first one, and both are delivered
in that order. -/
theorem packets_delivered_in_order_counterexample :
    ¬ ∀ (topo : GpuTopology) (gpc : Nat) (cfg : DsmFabricConfig) (f : DsmFabric),
      Reachable topo gpc cfg FlitOp f → f.Delivers := by
  intro hclaim
  have hrun : ((runFrom (oneGpc 2 (by decide) (by decide)) 0 {} FlitOp readRun).any fun f =>
      decide ((f.ej .request 1).map serial = [2, 1] ∧
        (((onLane ⟨.request, 0, 1⟩ f.accepted).filter
            (fun p => p.packetClass = .readCommand)).map header).map serial ≠
          (((onLane ⟨.request, 0, 1⟩ f.poppedPackets ++ f.ejectionLane ⟨.request, 0, 1⟩ ++
            f.queue .request 0 1).filter
              (fun p => p.packetClass = .readCommand)).map header).map serial)) = true := by
    decide
  obtain ⟨f, hreach, -, hne⟩ := exists_reachable hrun
  exact hne (congrArg (List.map serial)
    ((hclaim _ _ _ f hreach).in_order ⟨.request, 0, 1⟩ .readCommand))

/-- A store, a read command that passes it, and the pop of the read command. -/
theorem packets_delivered_in_order_witness :
    ∃ f : DsmFabric, (f.popped.map (fun e => e.2.2.serial) = [1] ∧
      (f.queue .request 0 1).map serial = [0]) ∧ f.Delivers := by
  have hrun : ((runFrom (oneGpc 2 (by decide) (by decide)) 0 {}
      (fun f op => FlitOp f op ∧ NoReadOvertaking f op)
      [.inject (mkPkt 0 1 .writeData 64 0), .inject (mkPkt 0 1 .readCommand 4 0),
        .cycle 2, .pop 1 .request]).any fun f =>
        decide (f.popped.map (fun e => e.2.2.serial) = [1] ∧
          (f.queue .request 0 1).map serial = [0])) = true := by
    decide
  obtain ⟨f, hreach, hshape⟩ := exists_reachable hrun
  exact ⟨f, hshape, packets_delivered_in_order hreach⟩

end DsmFabric

end FlashGpuSim
