import FlashGpuSim.Dsm.EndpointStores

/-!
Completion over whole runs: every accepted transaction is open or was reported done
once, something under way will complete each open one, and nothing is left behind when
the endpoint is idle.
-/

namespace FlashGpuSim

open Lib Relation

namespace DsmEndpoint

variable {σ : Type} {host : DsmHost σ} {guard : DsmGuard σ} {e : DsmEndpoint σ}
  {topo : GpuTopology} {gpc : Nat} {fcfg : DsmFabricConfig} {cfg : DsmEndpointConfig}
  {s id : Nat} {t : DsmTx}

/-- What will complete the open transaction `t` of `s`. -/
inductive Carrier (e : DsmEndpoint σ) (s id : Nat) (t : DsmTx) : Prop
  /-- a request in the fabric -/
  | request {q : DsmPacket} (hmem : q ∈ e.fab.lane ⟨.request, s, t.target⟩)
      (hid : q.transactionId = id) (hcls : q.packetClass.ofRequest = t.cls)
  /-- an entry of `m_ingress` at the target -/
  | ingress {p : Pending} (hmem : p ∈ e.ingress) (hsrc : p.src = t.target) (hdst : p.dst = s)
      (hid : p.txid = id) (hcls : p.cls.ofRequest = t.cls)
  /-- an entry of `m_pending` at the target -/
  | pending {p : Pending} (hmem : p ∈ e.pending) (hsrc : p.src = t.target) (hdst : p.dst = s)
      (hid : p.txid = id) (hcls : p.cls.ofRequest = t.cls)
  /-- a response in the fabric -/
  | response {q : DsmPacket} (hmem : q ∈ e.fab.lane ⟨.response, t.target, s⟩)
      (hid : q.transactionId = id) (hcls : q.packetClass.ofRequest = t.cls)
  /-- the acknowledgements in the fabric, whose counts reach the transaction -/
  | ack {front behind : List Nat} (hstore : t.cls.isStore = true)
      (hqueue : e.storeQ s t.target = front ++ id :: behind)
      (hreach : front.length < e.storesAcked s t.target)
  /-- what the target owes, after these acknowledgements -/
  | owed {front behind : List Nat} (hstore : t.cls.isStore = true)
      (hqueue : e.storeQ s t.target = front ++ id :: behind)
      (hreach : front.length < e.storesAcked s t.target + e.acksOwed t.target s)
      (hpos : 0 < e.acksOwed t.target s)

/-- Every accepted transaction is open, or it was done once and is closed. -/
def CompletesOnce (e : DsmEndpoint σ) : Prop :=
  ∀ t, .accepted t ∈ e.history →
    (∃ t', (e.tx t.requester).lookup t.id = some t' ∧ { t' with applied := false } = t) ∧
        (doneIds e.history).count t.id = 0 ∨
      (∀ s, (e.tx s).lookup t.id = none) ∧ (doneIds e.history).count t.id = 1

/-- The tables of the endpoint are empty. -/
structure Drained (e : DsmEndpoint σ) : Prop where
  tx : ∀ s, e.tx s = ∅
  storeQ : ∀ s d, e.storeQ s d = []
  acksOwed : ∀ s d, e.acksOwed s d = 0
  data : e.data = ∅
  extra : e.extra = ∅

theorem Accounts.completes_once (h : Accounts e) : CompletesOnce e := by
  intro t ht
  by_cases hdone : .txDone t.id ∈ e.history
  · right
    constructor
    · intro s
      cases hlook : (e.tx s).lookup t.id with
      | none => rfl
      | some t' => exact absurd hdone (h.tables.live s t.id t' hlook).2.1
    · exact List.count_eq_one_of_mem h.tables.done_nodup (mem_doneIds.mpr hdone)
  · left
    refine ⟨(h.tables.settled t ht).resolve_left hdone, ?_⟩
    exact List.count_eq_zero_of_not_mem (fun hmem => hdone (mem_doneIds.mp hmem))

/-- A token of the requests is a packet or an entry of `m_ingress`. -/
theorem upstream_carrier (hmem : (id, t.cls) ∈ e.upstream s t.target) : Carrier e s id t := by
  rcases List.mem_append.mp hmem with hmem | hmem
  · obtain ⟨p, hp, heq⟩ := List.mem_map.mp hmem
    obtain ⟨hp, hpair⟩ := List.mem_filter.mp hp
    rw [decide_eq_true_eq] at hpair
    obtain ⟨hid, hcls⟩ := Prod.mk.inj heq
    exact .ingress hp hpair.1 hpair.2 hid hcls
  · obtain ⟨q, hq, heq⟩ := List.mem_map.mp hmem
    obtain ⟨hid, hcls⟩ := Prod.mk.inj heq
    exact .request hq hid hcls

theorem answered_carrier (hmem : (id, t.cls) ∈ e.answered s t.target) : Carrier e s id t := by
  rcases List.mem_append.mp hmem with hmem | hmem
  · obtain ⟨p, hp, heq⟩ := List.mem_map.mp hmem
    obtain ⟨hp, hpair⟩ := List.mem_filter.mp hp
    rw [decide_eq_true_eq] at hpair
    obtain ⟨hid, hcls⟩ := Prod.mk.inj heq
    exact .pending hp hpair.1 hpair.2 hid hcls
  · obtain ⟨q, hq, heq⟩ := List.mem_map.mp hmem
    obtain ⟨hid, hcls⟩ := Prod.mk.inj heq
    exact .response (List.mem_of_mem_filter hq) hid hcls

theorem Accounts.carrier (h : Accounts e) (hlook : (e.tx s).lookup id = some t) :
    Carrier e s id t := by
  have hflow := h.flow s t.target
  by_cases hstore : t.cls.isStore = true
  · have hwaits : id ∈ e.storeQ s t.target :=
      (h.tables.store_iff s t.target id).mpr ⟨t, hlook, rfl, hstore⟩
    obtain ⟨front, behind, hqueue⟩ := List.append_of_mem hwaits
    rcases hflow.ledger.carrier hqueue with hacks | ⟨howed, hpos⟩ | htravels
    · exact .ack hstore hqueue hacks
    · exact .owed hstore hqueue howed hpos
    · obtain ⟨token, htoken, hid⟩ := List.mem_map.mp htravels
      have hmem := List.mem_of_mem_filter htoken
      -- the token has the class of the transaction
      obtain ⟨t', hlook', -, hcls⟩ := hflow.tokens.asked token hmem
      rw [hid, hlook] at hlook'
      obtain rfl := Option.some.inj hlook'
      apply upstream_carrier
      rw [← hid, hcls]
      exact hmem
  · have hcarrier := hflow.tokens.carrier (id, t.cls) ⟨t, hlook, rfl, rfl⟩
      (Bool.eq_false_iff.mpr hstore)
    rcases List.mem_append.mp hcarrier with hmem | hmem
    · exact upstream_carrier hmem
    · exact answered_carrier hmem

/-- A response that an endpoint keeps in the fabric for an mbarrier has a flit. -/
theorem Base.mbar_response (hbase : Base e) {q : DsmPacket} {d : Nat}
    (hq : q ∈ e.fab.lane ⟨.response, d, s⟩)
    (hcls : q.packetClass.ofRequest = .mbarrierRequest) : 0 < q.totalFlits := by
  have honlane := hbase.lanes _ q hq
  rw [honlane.flits]
  apply dsmPayloadFlits_pos
  left
  have hvc : dsmVcOf q.packetClass = .response := honlane.vc
  cases hc : q.packetClass <;>
    simp_all [DsmPacketClass.ofRequest, dsmVcOf, dsmPacketIsControl]

theorem Accounts.drained (h : Accounts e) (hbase : Base e) (hidle : e.busy = false) :
    Drained e := by
  unfold busy at hidle
  simp only [Bool.or_eq_false_iff, Bool.not_eq_false', List.isEmpty_iff, List.any_eq_false,
    List.mem_range, bne_iff_ne, ne_eq, Decidable.not_not, not_or, Bool.or_eq_true] at hidle
  obtain ⟨⟨⟨hfab, hpending⟩, hingress⟩, hsms⟩ := hidle
  have hclosed : ∀ s id, (e.tx s).lookup id = none := by
    intro s id
    cases hlook : (e.tx s).lookup id with
    | none => rfl
    | some t =>
      have hin := (h.tables.entry s id t hlook).2.2.1
      rw [Table.lookup_of_size_zero (hsms s hin).1] at hlook
      cases hlook
  have hstores : ∀ s d, e.storeQ s d = [] := by
    intro s d
    refine List.eq_nil_iff_forall_not_mem.mpr (fun id hid => ?_)
    obtain ⟨t, hlook, -⟩ := (h.tables.store_iff s d id).mp hid
    rw [hclosed] at hlook
    cases hlook
  refine ⟨fun s => Table.eq_empty_of_lookup (hclosed s), hstores, ?_, ?_, ?_⟩
  · intro d s
    have hsum := h.stores_add_up s d
    rw [hstores] at hsum
    simp only [List.length_nil] at hsum
    omega
  · refine Table.eq_empty_of_lookup (fun id => ?_)
    by_contra hsome
    obtain ⟨s, t, hlook, -⟩ := h.side.data id (Option.isSome_iff_ne_none.mpr hsome)
    rw [hclosed] at hlook
    cases hlook
  · refine Table.eq_empty_of_lookup (fun id => ?_)
    by_contra hsome
    rcases h.side.extra id (Option.isSome_iff_ne_none.mpr hsome) with ⟨s, t, hlook⟩ | ⟨s, d, hmem⟩
    · rw [hclosed] at hlook
      cases hlook
    · -- a message on its way keeps the fabric busy
      unfold answered at hmem
      rw [hpending] at hmem
      obtain ⟨q, hq, heq⟩ := List.mem_map.mp hmem
      have hq' := List.mem_of_mem_filter hq
      have hflits := hbase.mbar_response hq' (Prod.mk.inj heq).2
      rw [DsmFabric.busy_of_lane hbase.fab hq' hflits] at hfab
      cases hfab

theorem Accounts.outstanding_le (h : Accounts e) (sm : Nat) :
    e.outstanding sm ≤ e.cfg.maxOutstandingPerSm := by
  unfold outstanding
  split
  · exact h.tables.size sm
  · exact Nat.zero_le _

end DsmEndpoint

end FlashGpuSim
