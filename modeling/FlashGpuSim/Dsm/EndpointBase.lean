import FlashGpuSim.Dsm.EndpointMoves

/-!
How the queues of an endpoint are formed: the packets on the lanes are its own, the
entries of `m_ingress` stand in the order of their arrival, and a store waits there
with bytes still to get. Every move keeps this.
-/

namespace FlashGpuSim

open Lib Relation

namespace DsmEndpoint

variable {σ : Type}

/-! ### What is on the lanes and in the queues -/

/-- A packet of an endpoint on the lane `k`. -/
structure OnLane (cfg : DsmFabricConfig) (k : LaneKey) (p : DsmPacket) : Prop where
  vc : dsmVcOf p.packetClass = k.vc
  requester : p.transactionRequesterSmId =
    match k.vc with
    | .request => k.src
    | .response => k.dst
  target : p.transactionTargetSmId =
    match k.vc with
    | .request => k.dst
    | .response => k.src
  flits : p.totalFlits =
    dsmPayloadFlits p.packetClass p.payloadBytes cfg.flitPayloadBytes
  count : 0 < p.completionCount

/-- The classes of the responses that carry a transaction of their own. -/
def Answers (c : DsmPacketClass) : Prop := dsmVcOf c = .response ∧ c ≠ .writeAck

/-- An entry of `m_ingress`: a request that waits for SRAM bytes, or its response. -/
structure EntryOk (p : Pending) : Prop where
  answer : p.sramDone = true → Answers p.cls
  request : p.sramDone = false → dsmVcOf p.cls = .request
  short : p.sramDone = false → p.sramGot < p.bytes ∨ p.bytes = 0
  bytes : p.cls.isStore = true → 0 < p.bytes

/-- The part of the invariant that says how the queues are formed. -/
structure Base (e : DsmEndpoint σ) : Prop where
  fab : e.fab.Inv
  lanes : ∀ k, ∀ p ∈ e.fab.lane k, OnLane e.fab.cfg k p
  sorted : e.ingress.Pairwise (fun p q => p.arriveCycle ≤ q.arriveCycle)
  arrived : ∀ p ∈ e.ingress, p.arriveCycle ≤ e.now
  entries : ∀ p ∈ e.ingress, EntryOk p
  pending : ∀ p ∈ e.pending, Answers p.cls

variable {host : DsmHost σ} {guard : DsmGuard σ} {e e' : DsmEndpoint σ} {p : Pending}

theorem Base.frame (h : Base e) (hfab : e'.fab = e.fab) (hnow : e'.now = e.now)
    (hingress : e'.ingress = e.ingress) (hpending : e'.pending = e.pending) : Base e' := by
  constructor
  · rw [hfab]
    exact h.fab
  · rw [hfab]
    exact h.lanes
  · rw [hingress]
    exact h.sorted
  · rw [hingress, hnow]
    exact h.arrived
  · rw [hingress]
    exact h.entries
  · rw [hpending]
    exact h.pending

/-! ### Packets into the fabric -/

theorem requestPacket_fresh (e : DsmEndpoint σ) (r : IssueReq) : (e.requestPacket r).Fresh :=
  ⟨rfl, .inl rfl⟩

theorem responsePacket_fresh (e : DsmEndpoint σ) (p : Pending) : (e.responsePacket p).Fresh :=
  ⟨rfl, .inl rfl⟩

/-- The flits `inject` counts are those the endpoint asked room for. -/
theorem accepts_of_bare {f : DsmFabric} {packet : DsmPacket} (htotal : packet.totalFlits = 0) :
    f.accepts packet = f.canInject packet.networkSrcSmId packet.vc packet.networkDstSmId
      (dsmPayloadFlits packet.packetClass packet.payloadBytes f.cfg.flitPayloadBytes) := by
  unfold DsmFabric.accepts DsmFabric.withFlits
  simp only [htotal, if_true]
  split
  · rfl
  · rfl

theorem mem_injected_lane {f : DsmFabric} {packet q : DsmPacket} {k : LaneKey}
    (hq : q ∈ (f.injected packet).lane k) :
    q ∈ f.lane k ∨ k = packet.laneKey ∧ q = (f.queuedPacket packet).header := by
  obtain ⟨ahead, behind, hlane, -, hafter⟩ := f.injected_lane packet
  rw [hafter] at hq
  split at hq
  · rename_i hk
    rw [hk, hlane]
    rcases List.mem_append.mp hq with hq | hq
    · exact .inl (List.mem_append_left _ hq)
    · rcases List.mem_cons.mp hq with hq | hq
      · exact .inr ⟨rfl, hq⟩
      · exact .inl (List.mem_append_right _ hq)
  · exact .inl hq

/-- An injected packet of an endpoint keeps the lanes in form. -/
theorem onLane_injected {f : DsmFabric} {packet : DsmPacket}
    (h : ∀ k, ∀ q ∈ f.lane k, OnLane f.cfg k q) (htotal : packet.totalFlits = 0)
    (hpacket : ∀ flits, flits = dsmPayloadFlits packet.packetClass packet.payloadBytes
        f.cfg.flitPayloadBytes →
      OnLane f.cfg packet.laneKey { packet with totalFlits := flits }) :
    ∀ k, ∀ q ∈ (f.injected packet).lane k, OnLane f.cfg k q := by
  intro k q hq
  rcases mem_injected_lane hq with hq | ⟨hk, hq⟩
  · exact h k q hq
  · obtain ⟨packetId, created, gx, lane, hheader⟩ := f.queuedPacket_header packet htotal
    obtain ⟨hvc, hreq, htarget, hflits, hcount⟩ := hpacket _ rfl
    rw [hk, hq, hheader]
    exact ⟨hvc, hreq, htarget, rfl, hcount⟩

theorem onLane_requestPacket {cfg : DsmFabricConfig} {r : IssueReq} {flits : Nat}
    (hvc : dsmVcOf r.cls = .request)
    (hflits : flits = dsmPayloadFlits r.cls r.bytes cfg.flitPayloadBytes) :
    OnLane cfg (e.requestPacket r).laneKey
      { e.requestPacket r with totalFlits := flits } := by
  constructor
  · rfl
  · simp [DsmPacket.laneKey, requestPacket, hvc]
  · simp [DsmPacket.laneKey, requestPacket, hvc]
  · exact hflits
  · simp [requestPacket]

theorem onLane_responsePacket {cfg : DsmFabricConfig} {flits : Nat}
    (hvc : dsmVcOf p.cls = .response)
    (hflits : flits = dsmPayloadFlits p.cls p.bytes cfg.flitPayloadBytes) :
    OnLane cfg (e.responsePacket p).laneKey
      { e.responsePacket p with totalFlits := flits } := by
  constructor
  · rfl
  · simp [DsmPacket.laneKey, responsePacket, hvc]
  · simp [DsmPacket.laneKey, responsePacket, hvc]
  · exact hflits
  · simp only [responsePacket]
    split
    · exact Nat.one_pos
    · omega

theorem canInject_requestPacket {r : IssueReq}
    (h : e.fab.canInject r.src (dsmVcOf r.cls) r.dst (e.flitsOf r.cls r.bytes) = true) :
    e.fab.accepts (e.requestPacket r) = true := by
  rw [accepts_of_bare rfl]
  exact h

theorem canInject_responsePacket
    (h : e.fab.canInject p.src (dsmVcOf p.cls) p.dst (e.flitsOf p.cls p.bytes) = true) :
    e.fab.accepts (e.responsePacket p) = true := by
  rw [accepts_of_bare rfl]
  exact h

theorem canSend_inject {r : IssueReq} (hvc : dsmVcOf r.cls = .request)
    (h : e.canSend r.cls r.src r.dst r.bytes = true) :
    e.fab.accepts (e.requestPacket r) = true := by
  unfold canSend at h
  rw [Bool.and_eq_true, Bool.and_eq_true] at h
  apply canInject_requestPacket
  rw [hvc]
  exact h.2

/-! ### What the hook calls leave alone -/

/-- `e'` is `e` after a completion: its transactions, their data and the host changed. -/
def Completion (e e' : DsmEndpoint σ) : Prop :=
  ∃ tx storeQ data extra hostState history,
    e' = { e with
      tx := tx, storeQ := storeQ, data := data, extra := extra, hostState := hostState,
      history := history }

theorem Completion.refl (e : DsmEndpoint σ) : Completion e e := ⟨_, _, _, _, _, _, rfl⟩

theorem Completion.trans {e'' : DsmEndpoint σ} (h : Completion e e')
    (h' : Completion e' e'') : Completion e e'' := by
  obtain ⟨_, _, _, _, _, _, rfl⟩ := h
  obtain ⟨_, _, _, _, _, _, rfl⟩ := h'
  exact ⟨_, _, _, _, _, _, rfl⟩

theorem completeStores_completion (s d count : Nat) (e : DsmEndpoint σ) :
    Completion e (completeStores host s d count e) := by
  induction count generalizing e with
  | zero => exact .refl e
  | succ count ih =>
    unfold completeStores
    split
    · split
      · exact .refl e
      · refine Completion.trans ?_ (ih _)
        exact ⟨_, _, _, _, _, _, rfl⟩
    · exact .refl e

theorem arriveMbarCompletion_completion (e : DsmEndpoint σ) (sm txid : Nat) :
    Completion e (arriveMbarCompletion host e sm txid) := by
  unfold arriveMbarCompletion
  simp only
  split
  · split
    · exact ⟨_, _, _, _, _, _, rfl⟩
    · exact ⟨_, _, _, _, _, _, rfl⟩
  · split
    · exact ⟨_, _, _, _, _, _, rfl⟩
    · exact ⟨_, _, _, _, _, _, rfl⟩

theorem arriveResponse_completion (host : DsmHost σ) (e : DsmEndpoint σ) (sm : Nat)
    (p : DsmPacket) :
    Completion e (arriveResponse host e sm p) := by
  unfold arriveResponse
  split
  · exact completeStores_completion _ _ _ _
  · exact ⟨_, _, _, _, _, _, rfl⟩
  · exact ⟨_, _, _, _, _, _, rfl⟩
  · exact arriveMbarCompletion_completion _ _ _
  · exact .refl e

/-- `e'` is `e` after hook calls for the SRAM or the mbarriers of a CTA. Each access
is one of a request whose generation is the current one. -/
def Access (e e' : DsmEndpoint σ) : Prop :=
  ∃ hostState history, e' = { e with hostState := hostState, history := history } ∧
    ∃ events, history = e.history ++ events ∧ ∀ event ∈ events, event.Current

theorem Access.refl (e : DsmEndpoint σ) : Access e e :=
  ⟨_, _, rfl, [], (List.append_nil _).symm, List.forall_mem_nil _⟩

theorem Access.single {hostState : σ} {event : DsmEvent} (hcurrent : event.Current) :
    Access e { e with hostState := hostState, history := e.history ++ [event] } := by
  refine ⟨_, _, rfl, [event], rfl, ?_⟩
  intro event' hmem
  rw [List.mem_singleton.mp hmem]
  exact hcurrent

theorem Access.trans {e'' : DsmEndpoint σ} (h : Access e e') (h' : Access e' e'') :
    Access e e'' := by
  obtain ⟨_, _, rfl, events, rfl, hevents⟩ := h
  obtain ⟨_, _, rfl, events', rfl, hevents'⟩ := h'
  refine ⟨_, _, rfl, events ++ events', List.append_assoc _ _ _, ?_⟩
  intro event hmem
  rcases List.mem_append.mp hmem with hmem | hmem
  · exact hevents event hmem
  · exact hevents' event hmem

theorem genOk_iff : e.genOk p = true ↔ e.generation p.src p.ctaSlot = some p.ctaGen := by
  unfold genOk
  exact beq_iff_eq

theorem sramWrite_access (host : DsmHost σ) (bytes : List UInt8)
    (hgen : e.generation p.src p.ctaSlot = some p.ctaGen) :
    Access e (sramWrite host e p bytes) := by
  unfold sramWrite
  split
  · exact .single hgen
  · exact .refl e

theorem sramRead_access (host : DsmHost σ) (e : DsmEndpoint σ) (p : Pending) :
    Access e (sramRead host e p).2 := by
  unfold sramRead
  split
  · split
    · rename_i hok
      rw [Bool.and_eq_true] at hok
      have hgen := genOk_iff.mp hok.1
      rw [hgen]
      exact ⟨e.hostState, _, rfl, _, rfl, by simp [DsmEvent.Current]⟩
    · exact .refl e
  · exact .refl e

theorem notifyTmaMbar_access (host : DsmHost σ) (e : DsmEndpoint σ) (p : Pending) :
    Access e (notifyTmaMbar host e p) := by
  unfold notifyTmaMbar
  split
  · split
    · rename_i hcond
      exact .single (genOk_iff.mp hcond.2.2)
    · exact .refl e
  · exact .refl e

theorem applyAtomic_access (e : DsmEndpoint σ) (p : Pending) :
    Access e (applyAtomic host e p).1 := by
  have hread := sramRead_access host e p
  unfold applyAtomic
  simp only
  split
  · rename_i hok
    simp only [Bool.and_eq_true] at hok
    refine hread.trans (sramWrite_access host _ ?_)
    obtain ⟨_, _, heq, -⟩ := hread
    rw [heq]
    exact genOk_iff.mp hok.1.1.1
  · exact hread

/-- A load and an atomic change nothing of the endpoint itself. -/
theorem applySram_access (host : DsmHost σ) (e : DsmEndpoint σ)
    (hstore : p.cls.isStore = false) :
    Access e (applySram host e p).1 := by
  unfold applySram
  split
  · rename_i hcls
    simp [hcls, DsmPacketClass.isStore] at hstore
  · rename_i hcls
    simp [hcls, DsmPacketClass.isStore] at hstore
  · exact sramRead_access host e p
  · exact applyAtomic_access e p
  · exact .refl e

/-- What an applied load or atomic leaves of its entry. -/
theorem applySram_entry (host : DsmHost σ) (e : DsmEndpoint σ)
    (hcls : p.cls = .readCommand ∨ p.cls = .atomicRequest) :
    ∃ payload, (applySram host e p).2 =
      { p with
        payload := payload
        cls := if p.cls = .readCommand then .readData else .atomicResponse } := by
  rcases hcls with hcls | hcls
  · simp only [applySram, hcls, if_true]
    exact ⟨_, rfl⟩
  · simp only [applySram, hcls, applyAtomic]
    exact ⟨_, rfl⟩

/-- A store writes when it may, is owed an acknowledgement and is marked. -/
theorem applyStore_eq (host : DsmHost σ) (e : DsmEndpoint σ) (p : Pending) :
    ∃ g, Access e g ∧ applyStore host e p = (g.accrueAck p.src p.dst).markApplied p.dst p.txid := by
  refine ⟨_, ?_, rfl⟩
  split
  · rename_i hok
    rw [Bool.and_eq_true] at hok
    exact sramWrite_access host _ (genOk_iff.mp hok.1)
  · exact .refl e

/-- `e'` is `e` after a store was applied. -/
def Applied (e e' : DsmEndpoint σ) : Prop :=
  ∃ tx acksOwed oldestAck lastWrite hostState history,
    e' = { e with
      tx := tx, acksOwed := acksOwed, oldestAck := oldestAck, lastWrite := lastWrite,
      hostState := hostState, history := history }

theorem Applied.trans {e'' : DsmEndpoint σ} (h : Applied e e') (h' : Applied e' e'') :
    Applied e e'' := by
  obtain ⟨_, _, _, _, _, _, rfl⟩ := h
  obtain ⟨_, _, _, _, _, _, rfl⟩ := h'
  exact ⟨_, _, _, _, _, _, rfl⟩

theorem Access.applied (h : Access e e') : Applied e e' := by
  obtain ⟨_, _, rfl, -⟩ := h
  exact ⟨_, _, _, _, _, _, rfl⟩

theorem accrueAck_applied (e : DsmEndpoint σ) (target requester : Nat) :
    Applied e (e.accrueAck target requester) := by
  unfold accrueAck
  split
  · exact ⟨_, _, _, _, _, _, rfl⟩
  · exact ⟨_, _, _, _, _, _, rfl⟩

theorem markApplied_applied (e : DsmEndpoint σ) (requester txid : Nat) :
    Applied e (e.markApplied requester txid) := by
  unfold markApplied
  split
  · split
    · exact ⟨_, _, _, _, _, _, rfl⟩
    · exact ⟨_, _, _, _, _, _, rfl⟩
  · exact ⟨_, _, _, _, _, _, rfl⟩

theorem applyStore_applied (host : DsmHost σ) (e : DsmEndpoint σ) (p : Pending) :
    Applied e (applyStore host e p) := by
  obtain ⟨g, haccess, heq⟩ := applyStore_eq host e p
  rw [heq]
  exact haccess.applied.trans
    ((accrueAck_applied g p.src p.dst).trans (markApplied_applied _ p.dst p.txid))

/-! ### Every move keeps the queues in form -/

theorem Completion.base (h : Completion e e') (hbase : Base e) : Base e' := by
  obtain ⟨_, _, _, _, _, _, rfl⟩ := h
  exact hbase.frame rfl rfl rfl rfl

section Entries

variable {before behind : List Pending} {q : Pending}

/-- An entry stays in its place and keeps its arrival time. -/
theorem Base.replace (h : Base e) (hingress : e.ingress = before ++ p :: behind)
    (hq : EntryOk q) (htime : q.arriveCycle = p.arriveCycle) :
    Base { e with ingress := before ++ q :: behind } := by
  have hmem : ∀ r ∈ before ++ q :: behind, r = q ∨ r ∈ e.ingress := by
    intro r hr
    rw [hingress]
    rcases List.mem_append.mp hr with hr | hr
    · exact .inr (List.mem_append_left _ hr)
    · rcases List.mem_cons.mp hr with hr | hr
      · exact .inl hr
      · exact .inr (List.mem_append_right _ (List.mem_cons_of_mem _ hr))
  have hp : p ∈ e.ingress := by
    rw [hingress]
    exact List.mem_append_right _ List.mem_cons_self
  refine ⟨h.fab, h.lanes, ?_, ?_, ?_, h.pending⟩
  · have hsorted := h.sorted
    rw [hingress] at hsorted
    simp only [List.pairwise_append, List.pairwise_cons, List.mem_cons, forall_eq_or_imp,
      htime] at hsorted ⊢
    exact hsorted
  · intro r hr
    rcases hmem r hr with rfl | hr
    · change r.arriveCycle ≤ e.now
      rw [htime]
      exact h.arrived p hp
    · exact h.arrived r hr
  · intro r hr
    rcases hmem r hr with rfl | hr
    · exact hq
    · exact h.entries r hr

theorem Base.drop (h : Base e) (hingress : e.ingress = before ++ p :: behind) :
    Base { e with ingress := before ++ behind } := by
  have hsub : (before ++ behind).Sublist e.ingress := by
    rw [hingress]
    exact List.Sublist.append_left (List.sublist_cons_self p behind) before
  refine ⟨h.fab, h.lanes, ?_, ?_, ?_, h.pending⟩
  · exact h.sorted.sublist hsub
  · exact fun r hr => h.arrived r (hsub.subset hr)
  · exact fun r hr => h.entries r (hsub.subset hr)

theorem Base.entry (h : Base e) (hingress : e.ingress = before ++ p :: behind) :
    EntryOk p := by
  apply h.entries
  rw [hingress]
  exact List.mem_append_right _ List.mem_cons_self

end Entries

/-- Another fabric with the same clock, whose lanes are in form. -/
theorem Base.withFab (h : Base e) {fab : DsmFabric} (hinv : fab.Inv)
    (hlanes : ∀ k, ∀ q ∈ fab.lane k, OnLane fab.cfg k q) : Base { e with fab := fab } :=
  ⟨hinv, hlanes, h.sorted, h.arrived, h.entries, h.pending⟩

theorem Base.request (h : Base e) {r : IssueReq} (hvc : dsmVcOf r.cls = .request)
    (hsend : e.canSend r.cls r.src r.dst r.bytes = true) :
    Base { e with fab := e.fab.injected (e.requestPacket r) } := by
  apply h.withFab
  · exact DsmFabric.injected_inv h.fab (requestPacket_fresh e r) (canSend_inject hvc hsend)
  · exact onLane_injected h.lanes rfl (fun _ hflits => onLane_requestPacket hvc hflits)

theorem Base.response (h : Base e) (hvc : dsmVcOf p.cls = .response)
    (hcan : e.fab.canInject p.src (dsmVcOf p.cls) p.dst (e.flitsOf p.cls p.bytes) = true) :
    Base { e with fab := e.fab.injected (e.responsePacket p) } := by
  apply h.withFab
  · exact DsmFabric.injected_inv h.fab (responsePacket_fresh e p) (canInject_responsePacket hcan)
  · exact onLane_injected h.lanes rfl (fun _ hflits => onLane_responsePacket hvc hflits)

theorem Base.popped (h : Base e) {vc : DsmVc} {sm : Nat} {q : DsmPacket}
    (htop : e.fab.top sm vc = some q) : Base { e with fab := e.fab.poppedHead vc sm q } := by
  apply h.withFab
  · exact DsmFabric.poppedHead_inv h.fab htop
  · obtain ⟨-, -, -, rest, hlane, hafter⟩ := DsmFabric.poppedHead_lane h.fab htop
    intro k r hr
    rw [hafter] at hr
    split at hr
    · rename_i hk
      apply h.lanes k r
      rw [hk, hlane]
      exact List.mem_cons_of_mem _ hr
    · exact h.lanes k r hr

/-- What `harvest` pops is a packet of an endpoint. -/
theorem Base.top_onLane (h : Base e) {vc : DsmVc} {sm : Nat} {q : DsmPacket}
    (htop : e.fab.top sm vc = some q) :
    OnLane e.fab.cfg q.laneKey q.header ∧ q.laneKey = ⟨vc, q.networkSrcSmId, sm⟩ ∧
      0 < q.totalFlits := by
  obtain ⟨hvc, hdst, hflits, rest, hlane, -⟩ := DsmFabric.poppedHead_lane h.fab htop
  refine ⟨h.lanes _ _ ?_, ?_, hflits⟩
  · rw [hlane]
    exact List.mem_cons_self
  · rw [← hvc, ← hdst]
    rfl

theorem dsmPayloadFlits_store {c : DsmPacketClass} {bytes flit : Nat}
    (hstore : c.isStore = true) (hflits : 0 < dsmPayloadFlits c bytes flit) : 0 < bytes := by
  by_contra hzero
  have hbytes : bytes = 0 := by omega
  subst hbytes
  have hnone : dsmPayloadFlits c 0 flit = 0 := by
    unfold dsmPayloadFlits
    split
    · cases c <;> simp_all [DsmPacketClass.isStore, dsmPacketIsControl]
    · simp only
      split
      · rfl
      · exact Nat.div_eq_of_lt (by omega)
  omega

theorem ingressEntry_ok (h : Base e) {sm : Nat} {q : DsmPacket}
    (htop : e.fab.top sm .request = some q) : EntryOk (e.ingressEntry sm q) := by
  obtain ⟨honlane, hkey, hflits⟩ := h.top_onLane htop
  have hvc : dsmVcOf q.packetClass = .request := by
    have hcls := honlane.vc
    rw [hkey] at hcls
    exact hcls
  constructor
  · intro hdone
    cases hdone
  · intro _
    exact hvc
  · intro _
    change 0 < q.payloadBytes ∨ q.payloadBytes = 0
    omega
  · intro hstore
    have htotal : q.totalFlits =
        dsmPayloadFlits q.packetClass q.payloadBytes e.fab.cfg.flitPayloadBytes := honlane.flits
    rw [htotal] at hflits
    exact dsmPayloadFlits_store hstore hflits

theorem arriveRequest_base (h : Base e) {sm : Nat} {q : DsmPacket}
    (hentry : EntryOk (e.ingressEntry sm q)) : Base (e.arriveRequest sm q) := by
  have hnew : Base { e with ingress := e.ingress ++ [e.ingressEntry sm q] } := by
    refine ⟨h.fab, h.lanes, ?_, ?_, ?_, h.pending⟩
    · rw [List.pairwise_append]
      refine ⟨h.sorted, List.pairwise_singleton _ _, ?_⟩
      intro r hr s hs
      rw [List.mem_singleton.mp hs]
      exact h.arrived r hr
    · intro r hr
      rcases List.mem_append.mp hr with hr | hr
      · exact h.arrived r hr
      · rw [List.mem_singleton.mp hr]
        exact Nat.le_refl _
    · intro r hr
      rcases List.mem_append.mp hr with hr | hr
      · exact h.entries r hr
      · rw [List.mem_singleton.mp hr]
        exact hentry
  unfold arriveRequest
  simp only
  split
  · exact hnew
  · exact hnew.frame rfl rfl rfl rfl

theorem served_reply_ok {cls : DsmPacketClass} (hcls : Answers cls)
    {payload : List UInt8} {now got : Nat} :
    EntryOk ({ p with sramGot := got, payload := payload, cls := cls }.served now) := by
  constructor
  · intro _
    exact hcls
  · intro hdone
    cases hdone
  · intro hdone
    cases hdone
  · intro hstore
    have hvc := hcls.1
    cases cls <;> simp_all [Pending.served, DsmPacketClass.isStore, dsmVcOf]

/-- Every move keeps the queues in form. -/
theorem Move.base (hmove : Move host guard e e') (h : Base e) : Base e' := by
  cases hmove with
  | @fabric now fab htime hcycled =>
    refine ⟨hcycled.inv, ?_, h.sorted, ?_, h.entries, h.pending⟩
    · intro k q hq
      change q ∈ fab.lane k at hq
      change OnLane fab.cfg k q
      rw [hcycled.lane h.fab] at hq
      rw [hcycled.setup.cfg]
      exact h.lanes k q hq
    · intro p hp
      exact Nat.le_trans (h.arrived p hp) htime
  | @accept r x _ hvc _ hsend =>
    have hfab := h.request hvc hsend
    cases x with
    | none => exact hfab.frame rfl rfl rfl rfl
    | some x => exact hfab.frame rfl rfl rfl rfl
  | @notice m =>
    refine ⟨h.fab, h.lanes, h.sorted, h.arrived, h.entries, ?_⟩
    intro p hp
    rcases List.mem_append.mp hp with hp | hp
    · exact h.pending p hp
    · rw [List.mem_singleton.mp hp]
      exact ⟨rfl, by simp [waitDone]⟩
  | @send p before behind hpending hcan =>
    have hvc : dsmVcOf p.cls = .response := by
      refine (h.pending p ?_).1
      rw [hpending]
      exact List.mem_append_right _ List.mem_cons_self
    have hfab := h.response hvc hcan
    refine ⟨hfab.fab, hfab.lanes, h.sorted, h.arrived, h.entries, ?_⟩
    intro r hr
    apply h.pending
    rw [hpending]
    rcases List.mem_append.mp hr with hr | hr
    · exact List.mem_append_left _ hr
    · exact List.mem_append_right _ (List.mem_cons_of_mem _ hr)
  | @arriveRequest sm p htop =>
    exact arriveRequest_base (h.popped htop) (ingressEntry_ok h htop)
  | @arriveResponse sm p htop =>
    exact (arriveResponse_completion _ _ sm p).base (h.popped htop)
  | smem smem => exact h.frame rfl rfl rfl rfl
  | @fill p before behind got hingress hdone hshort =>
    have hentry := h.entry hingress
    refine h.replace hingress ?_ rfl
    exact ⟨fun hd => by simp [hdone] at hd, hentry.request, fun _ => .inl hshort,
      hentry.bytes⟩
  | @store p before behind got hingress hdone hstore hfirst =>
    have happlied := applyStore_applied host e { p with sramGot := got }
    have hnotified := notifyTmaMbar_access host
      (applyStore host e { p with sramGot := got }) { p with sramGot := got }
    have hboth := happlied.trans hnotified.applied
    obtain ⟨_, _, _, _, _, _, heq⟩ := hboth
    rw [heq]
    exact (h.drop hingress).frame rfl rfl rfl rfl
  | @reply p before behind got hingress hdone hcls =>
    have hstore : ({ p with sramGot := got } : Pending).cls.isStore = false := by
      rcases hcls with hcls | hcls
      · simp [hcls, DsmPacketClass.isStore]
      · simp [hcls, DsmPacketClass.isStore]
    obtain ⟨_, _, heq, -⟩ := applySram_access host e hstore
    obtain ⟨payload, hentry⟩ := @applySram_entry _ { p with sramGot := got } host e hcls
    rw [heq, hentry]
    refine (h.replace hingress (served_reply_ok ?_) rfl).frame rfl rfl rfl rfl
    split
    · exact ⟨rfl, by simp⟩
    · exact ⟨rfl, by simp⟩
  | mbarCall got hingress hdone hcls hdeliver hhook => exact h.frame rfl rfl rfl rfl
  | @mbarReply p before behind got hingress hdone hcls =>
    have hok : ∀ op, EntryOk { { p with sramGot := got }.served e.now with
        mbarOp := op, cls := .mbarrierCompletion } := by
      intro op
      exact ⟨fun _ => ⟨rfl, by simp⟩, nofun, nofun, nofun⟩
    unfold satisfyWait
    split
    · exact (h.replace hingress (hok kWaitDone) rfl).frame rfl rfl rfl rfl
    · exact (h.replace hingress (hok _) rfl).frame rfl rfl rfl rfl
  | @mbarDrop p before behind hingress hdone hcls =>
    exact (h.drop hingress).frame rfl rfl rfl rfl
  | @ready p before behind hingress hdone =>
    have hdrop := h.drop hingress
    refine ⟨h.fab, h.lanes, hdrop.sorted, hdrop.arrived, hdrop.entries, ?_⟩
    intro r hr
    rcases List.mem_append.mp hr with hr | hr
    · exact h.pending r hr
    · rw [List.mem_singleton.mp hr]
      exact (h.entry hingress).answer hdone
  | @flush sm req howed hcan =>
    have hfab := h.response (p := e.ackEntry sm req) rfl hcan
    exact hfab.frame rfl rfl rfl rfl
  | @bump sm cta _ =>
    unfold bumpCtaGen
    split
    · exact h.frame rfl rfl rfl rfl
    · exact h
  | outside hout => exact h.frame rfl rfl rfl rfl

theorem Moves.base (hmoves : Moves host guard e e') (h : Base e) : Base e' := by
  induction hmoves with
  | refl => exact h
  | tail _ hmove ih => exact hmove.base ih

end DsmEndpoint

end FlashGpuSim
