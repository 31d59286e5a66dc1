import FlashGpuSim.Dsm.EndpointRun

/-!
The traffic between two SMs, as the protocol sees it: the requests on their way to the
target, the responses on their way back, and the acknowledgements. Each move changes at
most one of these lists, and only by one element.
-/

namespace FlashGpuSim

open Lib Relation

/-- The class of the request that a packet belongs to. -/
def DsmPacketClass.ofRequest : DsmPacketClass → DsmPacketClass
  | .readData => .readCommand
  | .atomicResponse => .atomicRequest
  | .mbarrierCompletion => .mbarrierRequest
  | c => c

theorem DsmPacketClass.ofRequest_of_request {c : DsmPacketClass} (h : dsmVcOf c = .request) :
    c.ofRequest = c := by
  cases c <;> simp_all [ofRequest, dsmVcOf]

/-- A transaction on its way: its id, and the class it was issued with. -/
abbrev Token := Nat × DsmPacketClass

def Pending.token (p : Pending) : Token := (p.txid, p.cls.ofRequest)

def DsmPacket.token (p : DsmPacket) : Token := (p.transactionId, p.packetClass.ofRequest)

namespace DsmEndpoint

variable {σ : Type} {host : DsmHost σ} {guard : DsmGuard σ} {e e' : DsmEndpoint σ}
  {p : Pending} {before behind : List Pending}

/-- The entries of a queue of the target `d` that concern the requester `s`. -/
def between (l : List Pending) (s d : Nat) : List Pending :=
  l.filter (fun p => p.src = d ∧ p.dst = s)

/-- The requests of `s` to `d`, those that arrived first. -/
def upstream (e : DsmEndpoint σ) (s d : Nat) : List Token :=
  (between e.ingress s d).map Pending.token ++
    (e.fab.lane ⟨.request, s, d⟩).map DsmPacket.token

/-- The responses of `d` to `s`. -/
def answered (e : DsmEndpoint σ) (s d : Nat) : List Token :=
  (between e.pending s d).map Pending.token ++
    ((e.fab.lane ⟨.response, d, s⟩).filter (fun q => q.packetClass ≠ .writeAck)).map
      DsmPacket.token

/-- The counts of the acknowledgements on their way from `d` to `s`. -/
def acks (e : DsmEndpoint σ) (s d : Nat) : List Nat :=
  ((e.fab.lane ⟨.response, d, s⟩).filter (fun q => q.packetClass = .writeAck)).map
    DsmPacket.completionCount

/-! ### Lists of entries -/

theorem between_append (l l' : List Pending) (s d : Nat) :
    between (l ++ l') s d = between l s d ++ between l' s d := List.filter_append _ _

theorem between_cons (p : Pending) (l : List Pending) (s d : Nat) :
    between (p :: l) s d =
      if s = p.dst ∧ d = p.src then p :: between l s d else between l s d := by
  unfold between
  by_cases h : s = p.dst ∧ d = p.src
  · obtain ⟨rfl, rfl⟩ := h
    simp
  · have h' : ¬ (p.src = d ∧ p.dst = s) := fun hc => h ⟨hc.2.symm, hc.1.symm⟩
    simp [h, h']

@[simp] theorem between_nil (s d : Nat) : between [] s d = [] := rfl

/-- The tokens of `e` and `e'` agree when their queues have the same tokens. -/
theorem upstream_congr (hfab : ∀ k, e'.fab.lane k = e.fab.lane k)
    (hingress : ∀ s d, (between e'.ingress s d).map Pending.token =
      (between e.ingress s d).map Pending.token) : e'.upstream = e.upstream := by
  funext s d
  unfold upstream
  rw [hfab, hingress]

theorem answered_congr (hfab : ∀ k, e'.fab.lane k = e.fab.lane k)
    (hpending : e'.pending = e.pending) : e'.answered = e.answered := by
  funext s d
  unfold answered
  rw [hfab, hpending]

theorem acks_congr (hfab : ∀ k, e'.fab.lane k = e.fab.lane k) : e'.acks = e.acks := by
  funext s d
  unfold acks
  rw [hfab]

/-- `e'` has the traffic of `e`. -/
structure SameTraffic (e e' : DsmEndpoint σ) : Prop where
  upstream : e'.upstream = e.upstream
  answered : e'.answered = e.answered
  acks : e'.acks = e.acks

theorem SameTraffic.of_queues (hfab : e'.fab = e.fab) (hingress : e'.ingress = e.ingress)
    (hpending : e'.pending = e.pending) : SameTraffic e e' := by
  have hlane : ∀ k, e'.fab.lane k = e.fab.lane k := fun k => by rw [hfab]
  exact ⟨upstream_congr hlane (fun s d => by rw [hingress]), answered_congr hlane hpending,
    acks_congr hlane⟩

theorem cycled_traffic {now : Nat} {fab : DsmFabric} (hbase : Base e)
    (hcycled : DsmFabric.Cycled now e.fab fab) :
    SameTraffic e { e with now := now, fab := fab } := by
  have hlane : ∀ k, fab.lane k = e.fab.lane k := fun k => hcycled.lane hbase.fab k
  exact ⟨upstream_congr hlane (fun _ _ => rfl), answered_congr hlane rfl, acks_congr hlane⟩

/-! ### The fabric -/

/-- An accepted request joins the requests of its requester to its target, at the end
unless it is a read command. -/
theorem accept_traffic {r : IssueReq} (x : Option Extra) (hvc : dsmVcOf r.cls = .request) :
    ∃ ahead after, e.upstream r.src r.dst = ahead ++ after ∧
      (r.cls ≠ .readCommand → after = []) ∧
      ((e.accept r (e.fab.injected (e.requestPacket r))).withExtra x).upstream =
        update₂ e.upstream r.src r.dst (ahead ++ (e.nextTx + 1, r.cls) :: after) ∧
      ((e.accept r (e.fab.injected (e.requestPacket r))).withExtra x).answered = e.answered ∧
      ((e.accept r (e.fab.injected (e.requestPacket r))).withExtra x).acks = e.acks := by
  obtain ⟨ahead, after, hlane, hdata, hafter⟩ := e.fab.injected_lane (e.requestPacket r)
  have hkey : (e.requestPacket r).laneKey = ⟨.request, r.src, r.dst⟩ := by
    simp [DsmPacket.laneKey, requestPacket, hvc]
  rw [hkey] at hlane hafter
  have htoken : (e.fab.queuedPacket (e.requestPacket r)).header.token =
      (e.nextTx + 1, r.cls) := by
    obtain ⟨_, _, _, _, hheader⟩ := e.fab.queuedPacket_header (e.requestPacket r) rfl
    rw [hheader]
    simp [DsmPacket.token, requestPacket, DsmPacketClass.ofRequest_of_request hvc]
  have hfab : ((e.accept r (e.fab.injected (e.requestPacket r))).withExtra x).fab =
      e.fab.injected (e.requestPacket r) := by
    cases x with
    | none => rfl
    | some x => rfl
  have hqueues : ((e.accept r (e.fab.injected (e.requestPacket r))).withExtra x).ingress =
      e.ingress ∧ ((e.accept r (e.fab.injected (e.requestPacket r))).withExtra x).pending =
      e.pending := by
    cases x with
    | none => exact ⟨rfl, rfl⟩
    | some x => exact ⟨rfl, rfl⟩
  refine ⟨(between e.ingress r.src r.dst).map Pending.token ++ ahead.map DsmPacket.token,
    after.map DsmPacket.token, ?_, ?_, ?_, ?_, ?_⟩
  · unfold upstream
    rw [hlane, List.map_append, List.append_assoc]
  · intro hcls
    rw [hdata hcls]
    rfl
  · funext s d
    rw [update₂_apply]
    unfold upstream
    rw [hfab, hqueues.1, hafter]
    by_cases hpair : s = r.src ∧ d = r.dst
    · obtain ⟨rfl, rfl⟩ := hpair
      rw [if_pos rfl, if_pos ⟨rfl, rfl⟩, List.map_append, List.map_cons, htoken,
        List.append_assoc]
    · rw [if_neg hpair, if_neg]
      intro hc
      simp only [LaneKey.mk.injEq, true_and] at hc
      exact hpair hc
  · funext s d
    unfold answered
    rw [hfab, hqueues.2, hafter, if_neg (by simp)]
  · funext s d
    unfold acks
    rw [hfab, hafter, if_neg (by simp)]

/-- What the responses of an endpoint become on the response lanes. -/
theorem injected_response (hvc : dsmVcOf p.cls = .response) :
    ∃ ahead after q, e.fab.lane ⟨.response, p.src, p.dst⟩ = ahead ++ after ∧
      q.token = p.token ∧ q.packetClass = p.cls ∧
      q.completionCount = (if p.count = 0 then 1 else p.count) ∧
      ∀ k, (e.fab.injected (e.responsePacket p)).lane k =
        if k = ⟨.response, p.src, p.dst⟩ then ahead ++ q :: after else e.fab.lane k := by
  obtain ⟨ahead, after, hlane, -, hafter⟩ := e.fab.injected_lane (e.responsePacket p)
  have hkey : (e.responsePacket p).laneKey = ⟨.response, p.src, p.dst⟩ := by
    simp [DsmPacket.laneKey, responsePacket, hvc]
  rw [hkey] at hlane hafter
  obtain ⟨_, _, _, _, hheader⟩ := e.fab.queuedPacket_header (e.responsePacket p) rfl
  refine ⟨ahead, after, (e.fab.queuedPacket (e.responsePacket p)).header, hlane, ?_, ?_, ?_,
    hafter⟩
  · rw [hheader]
    rfl
  · rw [hheader]
    rfl
  · rw [hheader]
    rfl

/-- The element in the middle of the first of two lists, in front of both. -/
theorem perm_middle_left {α : Type} (a b l : List α) (x : α) :
    ((a ++ x :: b) ++ l).Perm (x :: ((a ++ b) ++ l)) := by
  rw [List.append_assoc, List.append_assoc, List.cons_append]
  exact List.perm_middle

/-- The element in the middle of the second of two lists, in front of both. -/
theorem perm_middle_right {α : Type} (l a b : List α) (x : α) :
    (l ++ (a ++ x :: b)).Perm (x :: (l ++ (a ++ b))) := by
  rw [← List.append_assoc, ← List.append_assoc]
  exact List.perm_middle

/-- A sent response keeps its place among the responses. -/
theorem send_traffic (hpending : e.pending = before ++ p :: behind) (hp : Answers p.cls) :
    ∃ l, l.Perm (e.answered p.dst p.src) ∧
      ({ e.respond p (e.fab.injected (e.responsePacket p)) with
        pending := before ++ behind } : DsmEndpoint σ).answered =
          update₂ e.answered p.dst p.src l ∧
      ({ e.respond p (e.fab.injected (e.responsePacket p)) with
        pending := before ++ behind } : DsmEndpoint σ).upstream = e.upstream ∧
      ({ e.respond p (e.fab.injected (e.responsePacket p)) with
        pending := before ++ behind } : DsmEndpoint σ).acks = e.acks := by
  obtain ⟨ahead, after, q, hlane, htoken, hcls, -, hafter⟩ := injected_response (e := e) hp.1
  have hnoAck : (q :: after).filter (fun q => decide (q.packetClass ≠ .writeAck)) =
      q :: after.filter (fun q => decide (q.packetClass ≠ .writeAck)) :=
    List.filter_cons_of_pos (by simpa [hcls] using hp.2)
  have hnoAck' : (q :: after).filter (fun q => decide (q.packetClass = .writeAck)) =
      after.filter (fun q => decide (q.packetClass = .writeAck)) :=
    List.filter_cons_of_neg (by simpa [hcls] using hp.2)
  refine ⟨(between (before ++ behind) p.dst p.src).map Pending.token ++
    ((ahead ++ q :: after).filter (fun q => q.packetClass ≠ .writeAck)).map DsmPacket.token,
    ?_, ?_, ?_, ?_⟩
  · have hqueue : (between e.pending p.dst p.src).map Pending.token =
        (between before p.dst p.src).map Pending.token ++
          p.token :: (between behind p.dst p.src).map Pending.token := by
      rw [hpending, between_append, between_cons, if_pos ⟨rfl, rfl⟩, List.map_append,
        List.map_cons]
    unfold answered
    rw [hqueue, hlane, between_append, List.map_append, List.filter_append, hnoAck,
      List.map_append, List.map_cons, htoken, List.filter_append, List.map_append]
    exact (perm_middle_right _ _ _ _).trans (perm_middle_left _ _ _ _).symm
  · funext s d
    rw [update₂_apply]
    unfold answered
    change (between (before ++ behind) s d).map Pending.token ++
      (((e.fab.injected (e.responsePacket p)).lane ⟨.response, d, s⟩).filter _).map _ = _
    rw [hafter]
    by_cases hpair : s = p.dst ∧ d = p.src
    · obtain ⟨rfl, rfl⟩ := hpair
      rw [if_pos rfl, if_pos ⟨rfl, rfl⟩]
    · rw [if_neg hpair, if_neg, hpending, between_append, between_append, between_cons,
        if_neg hpair]
      intro hc
      simp only [LaneKey.mk.injEq, true_and] at hc
      exact hpair ⟨hc.2, hc.1⟩
  · funext s d
    unfold upstream
    change _ ++ ((e.fab.injected (e.responsePacket p)).lane ⟨.request, s, d⟩).map _ = _
    rw [hafter, if_neg (by simp)]
    rfl
  · funext s d
    unfold acks
    change (((e.fab.injected (e.responsePacket p)).lane ⟨.response, d, s⟩).filter _).map _ = _
    rw [hafter]
    split
    · rename_i hk
      rw [hk, List.filter_append, hnoAck', hlane, List.filter_append]
    · rfl

/-- What `sm` owes to `req` travels back as one count. -/
theorem flush_traffic (e' : DsmEndpoint σ) {sm req : Nat} (howed : 0 < e.acksOwed sm req)
    (fab : DsmFabric) (hfab : fab = e.fab.injected (e.responsePacket (e.ackEntry sm req)))
    (hqueues : e'.fab = fab ∧ e'.ingress = e.ingress ∧ e'.pending = e.pending) :
    ∃ l, l.Perm (e.acksOwed sm req :: e.acks req sm) ∧
      e'.acks = update₂ e.acks req sm l ∧ e'.upstream = e.upstream ∧
      e'.answered = e.answered := by
  have hsent := injected_response (e := e) (p := e.ackEntry sm req) rfl
  rw [← hfab] at hsent
  obtain ⟨ahead, after, q, hlane, -, hcls, hcount, hafter⟩ :
    ∃ (ahead after : List DsmPacket) (q : DsmPacket),
      e.fab.lane ⟨.response, sm, req⟩ = ahead ++ after ∧
      q.token = (e.ackEntry sm req).token ∧ q.packetClass = .writeAck ∧
      q.completionCount = (if e.acksOwed sm req = 0 then 1 else e.acksOwed sm req) ∧
      ∀ k, fab.lane k =
        if k = ⟨.response, sm, req⟩ then ahead ++ q :: after else e.fab.lane k := hsent
  have hack : (q :: after).filter (fun q => decide (q.packetClass = .writeAck)) =
      q :: after.filter (fun q => decide (q.packetClass = .writeAck)) :=
    List.filter_cons_of_pos (by simp [hcls])
  have hack' : (q :: after).filter (fun q => decide (q.packetClass ≠ .writeAck)) =
      after.filter (fun q => decide (q.packetClass ≠ .writeAck)) :=
    List.filter_cons_of_neg (by simp [hcls])
  have howes : q.completionCount = e.acksOwed sm req := by
    rw [hcount, if_neg]
    omega
  refine ⟨((ahead ++ q :: after).filter (fun q => q.packetClass = .writeAck)).map
    DsmPacket.completionCount, ?_, ?_, ?_, ?_⟩
  · unfold acks
    rw [hlane, List.filter_append, List.filter_append, hack, List.map_append, List.map_append, List.map_cons, howes]
    exact List.perm_middle
  · funext s d
    rw [update₂_apply]
    unfold acks
    rw [hqueues.1, hafter]
    by_cases hpair : s = req ∧ d = sm
    · obtain ⟨rfl, rfl⟩ := hpair
      rw [if_pos rfl, if_pos ⟨rfl, rfl⟩]
    · rw [if_neg hpair, if_neg]
      intro hc
      simp only [LaneKey.mk.injEq, true_and] at hc
      exact hpair ⟨hc.2, hc.1⟩
  · funext s d
    unfold upstream
    rw [hqueues.1, hqueues.2.1, hafter, if_neg (by simp)]
  · funext s d
    unfold answered
    rw [hqueues.1, hqueues.2.2, hafter]
    split
    · rename_i hk
      rw [hk, List.filter_append, hack', hlane, List.filter_append]
    · rfl

/-- An arriving request only changes sides. -/
theorem arriveRequest_traffic (hbase : Base e) {sm : Nat} {q : DsmPacket}
    (htop : e.fab.top sm .request = some q) :
    SameTraffic e ({ e with fab := e.fab.poppedHead .request sm q }.arriveRequest sm q) := by
  obtain ⟨honlane, hkey, -⟩ := hbase.top_onLane htop
  obtain ⟨-, -, -, rest, hlane, hafter⟩ := DsmFabric.poppedHead_lane hbase.fab htop
  rw [hkey] at hlane hafter
  have hrequester : q.transactionRequesterSmId = q.networkSrcSmId := by
    have hreq := honlane.requester
    rw [hkey] at hreq
    exact hreq
  have harrived : ∃ entry,
      ({ e with fab := e.fab.poppedHead .request sm q }.arriveRequest sm q).fab =
          e.fab.poppedHead .request sm q ∧
        ({ e with fab := e.fab.poppedHead .request sm q }.arriveRequest sm q).ingress =
          e.ingress ++ [entry] ∧
        ({ e with fab := e.fab.poppedHead .request sm q }.arriveRequest sm q).pending =
          e.pending ∧
        entry.src = sm ∧ entry.dst = q.transactionRequesterSmId ∧ entry.token = q.token := by
    unfold arriveRequest
    simp only
    split
    · exact ⟨_, rfl, rfl, rfl, rfl, rfl, rfl⟩
    · exact ⟨_, rfl, rfl, rfl, rfl, rfl, rfl⟩
  obtain ⟨entry, hfab, hingress, hpending, hsrc, hdst, htoken⟩ := harrived
  constructor
  · funext s d
    unfold upstream
    rw [hfab, hingress, hafter, between_append, between_cons, between_nil, hsrc, hdst,
      hrequester]
    by_cases hpair : s = q.networkSrcSmId ∧ d = sm
    · obtain ⟨rfl, rfl⟩ := hpair
      rw [if_pos ⟨rfl, rfl⟩, if_pos rfl, hlane, List.map_append, List.map_cons, List.map_cons,
        htoken, List.append_assoc]
      rfl
    · rw [if_neg hpair, if_neg, List.append_nil]
      intro hc
      simp only [LaneKey.mk.injEq, true_and] at hc
      exact hpair hc
  · funext s d
    unfold answered
    rw [hfab, hpending, hafter, if_neg (by simp)]
  · funext s d
    unfold acks
    rw [hfab, hafter, if_neg (by simp)]

/-- A popped response was the first of its kind. -/
theorem popResponse_traffic (hbase : Base e) {sm : Nat} {q : DsmPacket}
    (htop : e.fab.top sm .response = some q) :
    dsmVcOf q.packetClass = .response ∧
    ({ e with fab := e.fab.poppedHead .response sm q } : DsmEndpoint σ).upstream = e.upstream ∧
      ((q.packetClass = .writeAck → ∃ l,
          e.acks sm q.transactionTargetSmId = q.completionCount :: l ∧
          ({ e with fab := e.fab.poppedHead .response sm q } : DsmEndpoint σ).acks =
            update₂ e.acks sm q.transactionTargetSmId l ∧
          ({ e with fab := e.fab.poppedHead .response sm q } : DsmEndpoint σ).answered =
            e.answered) ∧
        (q.packetClass ≠ .writeAck → ∃ l,
          (e.answered sm q.transactionTargetSmId).Perm (q.token :: l) ∧
          ({ e with fab := e.fab.poppedHead .response sm q } : DsmEndpoint σ).answered =
            update₂ e.answered sm q.transactionTargetSmId l ∧
          ({ e with fab := e.fab.poppedHead .response sm q } : DsmEndpoint σ).acks =
            e.acks)) := by
  obtain ⟨honlane, hkey, -⟩ := hbase.top_onLane htop
  obtain ⟨-, -, -, rest, hlane, hafter⟩ := DsmFabric.poppedHead_lane hbase.fab htop
  rw [hkey] at hlane hafter
  have htarget : q.transactionTargetSmId = q.networkSrcSmId := by
    have ht := honlane.target
    rw [hkey] at ht
    exact ht
  have hvc : dsmVcOf q.packetClass = .response := by
    have h := honlane.vc
    rw [hkey] at h
    exact h
  have hother : ∀ s d, ¬ (s = sm ∧ d = q.networkSrcSmId) →
      (⟨.response, d, s⟩ : LaneKey) ≠ ⟨.response, q.networkSrcSmId, sm⟩ := by
    intro s d hpair hc
    simp only [LaneKey.mk.injEq, true_and] at hc
    exact hpair ⟨hc.2, hc.1⟩
  refine ⟨hvc, ?_, ?_, ?_⟩
  · funext s d
    unfold upstream
    change _ ++ ((e.fab.poppedHead .response sm q).lane _).map _ = _
    rw [hafter, if_neg (by simp)]
  · intro hcls
    have hhead : (q.header :: rest).filter (fun q => decide (q.packetClass = .writeAck)) =
        q.header :: rest.filter (fun q => decide (q.packetClass = .writeAck)) :=
      List.filter_cons_of_pos (by simp [hcls])
    have hhead' : (q.header :: rest).filter (fun q => decide (q.packetClass ≠ .writeAck)) =
        rest.filter (fun q => decide (q.packetClass ≠ .writeAck)) :=
      List.filter_cons_of_neg (by simp [hcls])
    refine ⟨(rest.filter (fun q => q.packetClass = .writeAck)).map DsmPacket.completionCount,
      ?_, ?_, ?_⟩
    · unfold acks
      rw [htarget, hlane, hhead]
      rfl
    · funext s d
      rw [update₂_apply, htarget]
      unfold acks
      change (((e.fab.poppedHead .response sm q).lane _).filter _).map _ = _
      rw [hafter]
      by_cases hpair : s = sm ∧ d = q.networkSrcSmId
      · obtain ⟨rfl, rfl⟩ := hpair
        rw [if_pos rfl, if_pos ⟨rfl, rfl⟩]
      · rw [if_neg hpair, if_neg (hother s d hpair)]
    · funext s d
      unfold answered
      change _ ++ (((e.fab.poppedHead .response sm q).lane _).filter _).map _ = _
      rw [hafter]
      split
      · rename_i hk
        rw [hk, hlane, hhead']
      · rfl
  · intro hcls
    have hhead : (q.header :: rest).filter (fun q => decide (q.packetClass ≠ .writeAck)) =
        q.header :: rest.filter (fun q => decide (q.packetClass ≠ .writeAck)) :=
      List.filter_cons_of_pos (by simp [hcls])
    have hhead' : (q.header :: rest).filter (fun q => decide (q.packetClass = .writeAck)) =
        rest.filter (fun q => decide (q.packetClass = .writeAck)) :=
      List.filter_cons_of_neg (by simp [hcls])
    refine ⟨(between e.pending sm q.networkSrcSmId).map Pending.token ++
      (rest.filter (fun q => q.packetClass ≠ .writeAck)).map DsmPacket.token, ?_, ?_, ?_⟩
    · unfold answered
      rw [htarget, hlane, hhead, List.map_cons]
      exact List.perm_middle
    · funext s d
      rw [update₂_apply, htarget]
      unfold answered
      change _ ++ (((e.fab.poppedHead .response sm q).lane _).filter _).map _ = _
      rw [hafter]
      by_cases hpair : s = sm ∧ d = q.networkSrcSmId
      · obtain ⟨rfl, rfl⟩ := hpair
        rw [if_pos rfl, if_pos ⟨rfl, rfl⟩]
      · rw [if_neg hpair, if_neg (hother s d hpair)]
    · funext s d
      unfold acks
      change (((e.fab.poppedHead .response sm q).lane _).filter _).map _ = _
      rw [hafter]
      split
      · rename_i hk
        rw [hk, hlane, hhead']
      · rfl

/-! ### The queues of the target -/

/-- An entry that changes neither its two SMs nor its token. -/
theorem replace_traffic {q : Pending} (hingress : e.ingress = before ++ p :: behind)
    (hsrc : q.src = p.src) (hdst : q.dst = p.dst) (htoken : q.token = p.token)
    (hfab : e'.fab = e.fab) (hpending : e'.pending = e.pending)
    (hingress' : e'.ingress = before ++ q :: behind) : SameTraffic e e' := by
  have hlane : ∀ k, e'.fab.lane k = e.fab.lane k := fun k => by rw [hfab]
  refine ⟨upstream_congr hlane ?_, answered_congr hlane hpending, acks_congr hlane⟩
  intro s d
  rw [hingress, hingress', between_append, between_append, between_cons, between_cons, hsrc,
    hdst]
  split
  · rw [List.map_append, List.map_append, List.map_cons, List.map_cons, htoken]
  · rfl

/-- An entry that leaves `m_ingress`. -/
theorem drop_traffic (e' : DsmEndpoint σ) (hingress : e.ingress = before ++ p :: behind) (hfab : e'.fab = e.fab)
    (hingress' : e'.ingress = before ++ behind) :
    ∃ after, e.upstream p.dst p.src =
        (between before p.dst p.src).map Pending.token ++ p.token :: after ∧
      e'.upstream = update₂ e.upstream p.dst p.src
        ((between before p.dst p.src).map Pending.token ++ after) ∧
      e'.acks = e.acks := by
  refine ⟨(between behind p.dst p.src).map Pending.token ++
    (e.fab.lane ⟨.request, p.dst, p.src⟩).map DsmPacket.token, ?_, ?_, ?_⟩
  · unfold upstream
    rw [hingress, between_append, between_cons, if_pos ⟨rfl, rfl⟩, List.map_append,
      List.map_cons, List.append_assoc, List.cons_append]
  · funext s d
    rw [update₂_apply]
    unfold upstream
    rw [hfab, hingress']
    by_cases hpair : s = p.dst ∧ d = p.src
    · obtain ⟨rfl, rfl⟩ := hpair
      rw [if_pos ⟨rfl, rfl⟩, between_append, List.map_append, List.append_assoc]
    · rw [if_neg hpair, hingress, between_append, between_append, between_cons, if_neg hpair]
  · exact acks_congr (fun k => by rw [hfab])

/-- An entry that joins `m_pending`. -/
theorem append_traffic (e e' : DsmEndpoint σ) (p : Pending) (hfab : e'.fab = e.fab) (hpending : e'.pending = e.pending ++ [p]) :
    ∃ l, l.Perm (p.token :: e.answered p.dst p.src) ∧
      e'.answered = update₂ e.answered p.dst p.src l := by
  refine ⟨(between e.pending p.dst p.src).map Pending.token ++ p.token ::
    ((e.fab.lane ⟨.response, p.src, p.dst⟩).filter (fun q => q.packetClass ≠ .writeAck)).map
      DsmPacket.token, List.perm_middle, ?_⟩
  funext s d
  rw [update₂_apply]
  unfold answered
  rw [hfab, hpending, between_append, between_cons, between_nil]
  by_cases hpair : s = p.dst ∧ d = p.src
  · obtain ⟨rfl, rfl⟩ := hpair
    rw [if_pos ⟨rfl, rfl⟩, if_pos ⟨rfl, rfl⟩, List.map_append, List.append_assoc]
    rfl
  · rw [if_neg hpair, if_neg hpair, List.append_nil]

end DsmEndpoint

end FlashGpuSim
