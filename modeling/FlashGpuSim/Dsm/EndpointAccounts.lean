import FlashGpuSim.Dsm.EndpointCompletion

/-!
The accounts of an endpoint hold in every run: each move keeps them.
-/

namespace FlashGpuSim

open Lib Relation

namespace DsmEndpoint

variable {σ : Type} {host : DsmHost σ} {guard : DsmGuard σ} {e e' g : DsmEndpoint σ}
  {p : Pending} {before behind : List Pending} {sm : Nat} {q : DsmPacket}

/-! ### Responses that arrive -/

theorem withFab_tables (fab : DsmFabric) (hn : fab.n = e.fab.n) :
    SameTables e { e with fab := fab } :=
  ⟨hn, rfl, Nat.le_refl _, rfl, rfl, [], (List.append_nil _).symm, List.forall_mem_nil _⟩

theorem Accounts.arriveAck (h : Accounts e) (hbase : Base e)
    (htop : e.fab.top sm .response = some q) (hcls : q.packetClass = .writeAck) :
    Accounts (arriveResponse host { e with fab := e.fab.poppedHead .response sm q } sm q) := by
  obtain ⟨-, hup, hack, -⟩ := popResponse_traffic hbase htop
  obtain ⟨l, hhead, hacks, hans⟩ := hack hcls
  obtain ⟨honlane, -, -⟩ := hbase.top_onLane htop
  have hcount : (if q.completionCount = 0 then 1 else q.completionCount) =
      q.completionCount := by
    have hpos : 0 < q.completionCount := honlane.count
    rw [if_neg]
    omega
  have htables := withFab_tables (e := e) (e.fab.poppedHead .response sm q) rfl
  simp only [arriveResponse, hcls, hcount]
  apply completeStores_accounts
  refine ⟨h.tables.same htables, ?_, ?_, ?_, ?_⟩
  · intro s d
    rw [hup, hans]
    exact (h.flow s d).tokens.mono (holds_congr rfl) (fun _ _ => htables.later.notice)
  · intro s d hpair
    have hledger : ({ e with fab := e.fab.poppedHead .response sm q } : DsmEndpoint σ).ledger
        s d = e.ledger s d :=
      ledger_congr (by rw [hup]) (by rw [hacks, update₂_other _ _ hpair]) rfl rfl
    rw [hledger]
    exact (h.flow s d).ledger
  · -- the count that was popped stood in front of the others
    have hflow := (h.flow sm q.transactionTargetSmId).ledger
    unfold ledger at hflow
    rw [hhead] at hflow
    unfold ledger
    rw [hup, hacks, update₂_self]
    exact hflow
  · refine h.side.frame (fun s id t ht => ⟨t, ht, rfl⟩) ?_ (fun _ hid => hid)
      (fun _ hid => hid) (fun _ hp => .inl hp)
    intro s d id hmem
    rw [hans]
    exact hmem

/-- The transaction of a response, or the message it is. -/
theorem Accounts.response_owner (h : Accounts e) {l : List Token}
    (hperm : (e.answered sm q.transactionTargetSmId).Perm (q.token :: l)) :
    (∃ t, (e.tx sm).lookup q.transactionId = some t ∧ t.target = q.transactionTargetSmId ∧
      t.cls = q.packetClass.ofRequest ∧ sm < e.n ∧ t.cls.isStore = false) ∨
      e.Notice q.token := by
  have hmem : q.token ∈ e.answered sm q.transactionTargetSmId :=
    hperm.mem_iff.mpr List.mem_cons_self
  obtain ⟨howner, hcounted⟩ := (h.flow sm q.transactionTargetSmId).tokens.replied _ hmem
  rcases howner with ⟨t, ht, htarget, hcls⟩ | hnotice
  · refine .inl ⟨t, ht, htarget, hcls, (h.tables.entry _ _ _ ht).2.2.1, ?_⟩
    rw [hcls]
    exact hcounted
  · exact .inr hnotice

theorem Accounts.arriveData (h : Accounts e) (hbase : Base e)
    (htop : e.fab.top sm .response = some q)
    (hcls : q.packetClass = .readData ∨ q.packetClass = .atomicResponse) :
    Accounts (completeLoad host
      (loadData host { e with fab := e.fab.poppedHead .response sm q } q.transactionId) sm
      q.transactionId) := by
  obtain ⟨-, hup, -, hreply⟩ := popResponse_traffic hbase htop
  obtain ⟨l, hperm, hans, hacks⟩ := hreply (by rcases hcls with hc | hc <;> simp [hc])
  have htables : SameTables e
      (loadData host { e with fab := e.fab.poppedHead .response sm q } q.transactionId) := by
    refine ⟨rfl, rfl, Nat.le_refl _, rfl, rfl, [.response q.transactionId _], rfl, ?_⟩
    intro event hevent
    rw [List.mem_singleton.mp hevent]
    trivial
  rcases h.response_owner hperm with ⟨t, hlook, htarget, htcls, hs, hstore⟩ | hnotice
  · have hended : Ended e (completeLoad host
        (loadData host { e with fab := e.fab.poppedHead .response sm q } q.transactionId) sm
        q.transactionId) sm q.transactionId t e.storeQ := by
      refine completeLoad_ended htables hlook hs hstore ?_ rfl
      intro id' hid'
      change ((e.data.erase q.transactionId).lookup id').isSome at hid'
      rw [Table.lookup_erase] at hid'
      split at hid'
      · cases hid'
      · rename_i hne
        exact ⟨hid', fun _ => hne⟩
    rw [← htarget] at hperm hans
    exact h.ended_replied hended hstore hperm hans hup hacks rfl (fun _ hp => hp)
  · have hmbar := hnotice.1
    change q.packetClass.ofRequest = .mbarrierRequest at hmbar
    rcases hcls with hc | hc <;> simp [hc, DsmPacketClass.ofRequest] at hmbar

/-- The end of an arriving `mbarrier_completion` calls a hook at most. -/
theorem mbarDone_silent (g : DsmEndpoint σ) (sm : Nat) (extra : Extra) :
    ∃ hostState events, (if extra.mbarOp = kWaitDone then
        { g with
          hostState :=
            match host.onMbarDone with
            | some fn => fn g.hostState sm extra.reqWarp
            | none => g.hostState
          history := g.history ++ [DsmEvent.mbarDone sm extra.reqWarp] }
      else g) = { g with hostState := hostState, history := g.history ++ events } ∧
        ∀ event ∈ events, event.Silent := by
  split
  · refine ⟨_, [_], rfl, ?_⟩
    intro event hevent
    rw [List.mem_singleton.mp hevent]
    trivial
  · exact ⟨g.hostState, [], by rw [List.append_nil], List.forall_mem_nil _⟩

/-- It ends its transaction, if it has one. -/
theorem arriveMbarCompletion_spec (host : DsmHost σ) (e : DsmEndpoint σ) (sm txid : Nat) :
    ∃ g, (((e.tx sm).lookup txid).isSome ∧ g = completeLoad host e sm txid ∨
        (sm < e.n → (e.tx sm).lookup txid = none) ∧ g = { e with extra := e.extra.erase txid }) ∧
      ∃ hostState events, arriveMbarCompletion host e sm txid =
          { g with hostState := hostState, history := g.history ++ events } ∧
        ∀ event ∈ events, event.Silent := by
  refine ⟨_, ?_, mbarDone_silent _ sm ((e.extra.lookup txid).getD {})⟩
  split
  · rename_i hin
    rw [Bool.and_eq_true] at hin
    exact .inl ⟨hin.2, rfl⟩
  · rename_i hout
    refine .inr ⟨?_, rfl⟩
    intro hs
    simpa [hs] using hout

theorem silent_tables (e : DsmEndpoint σ) (hostState : σ) {events : List DsmEvent}
    (hsilent : ∀ event ∈ events, event.Silent) :
    SameTables e { e with hostState := hostState, history := e.history ++ events } :=
  ⟨rfl, rfl, Nat.le_refl _, rfl, rfl, events, rfl, hsilent⟩

theorem SameTables.trans {e'' : DsmEndpoint σ} (h : SameTables e e') (h' : SameTables e' e'') :
    SameTables e e'' := by
  obtain ⟨events, heq, hsilent⟩ := h.history
  obtain ⟨events', heq', hsilent'⟩ := h'.history
  refine ⟨h'.n.trans h.n, h'.cfg.trans h.cfg, Nat.le_trans h.nextTx h'.nextTx,
    h'.tx.trans h.tx, h'.storeQ.trans h.storeQ, events ++ events', ?_, ?_⟩
  · rw [heq', heq, List.append_assoc]
  · intro event hevent
    rcases List.mem_append.mp hevent with hmem | hmem
    · exact hsilent event hmem
    · exact hsilent' event hmem

/-- A `WAIT_DONE` message ends without a transaction. -/
theorem Accounts.noticeDone (h : Accounts e) {d : Nat} {l : List Token}
    (hsame : SameTables e e')
    (hclosed : ∀ s' t', (e.tx s').lookup q.transactionId ≠ some t')
    (hperm : (e.answered sm d).Perm (q.token :: l))
    (hans : e'.answered = update₂ e.answered sm d l) (hup : e'.upstream = e.upstream)
    (hacks : e'.acks = e.acks) (howed : e'.acksOwed = e.acksOwed) (hdata : e'.data = e.data)
    (hextra : e'.extra = e.extra.erase q.transactionId) (hingress : e'.ingress = e.ingress)
    (hpending : e'.pending = e.pending) : Accounts e' := by
  have hkept : ∀ s d' other, other ∈ e.answered s d' → other.1 ≠ q.transactionId →
      other ∈ e'.answered s d' := by
    intro s d' other hother hne
    rw [hans, update₂_apply]
    split
    · rename_i hpair
      obtain ⟨rfl, rfl⟩ := hpair
      rcases List.mem_cons.mp (hperm.mem_iff.mp hother) with rfl | hmem
      · exact absurd rfl hne
      · exact hmem
    · exact hother
  refine ⟨h.tables.same hsame, ?_, ?_⟩
  · intro s d'
    have hflow := h.flow s d'
    by_cases hpair : s = sm ∧ d' = d
    · obtain ⟨rfl, rfl⟩ := hpair
      constructor
      · have hledger : e'.ledger s d' = e.ledger s d' :=
          ledger_congr (by rw [hup]) (by rw [hacks]) (by rw [howed]) (by rw [hsame.storeQ])
        rw [hledger]
        exact hflow.ledger.mono hsame.later.applied
      · rw [hup, hans, update₂_self]
        have hclose : ∀ other, e'.Holds s d' other ↔
            e.Holds s d' other ∧ other.1 ≠ q.token.1 := by
          intro other
          rw [holds_congr hsame.tx]
          refine ⟨fun hold => ⟨hold, ?_⟩, fun hold => hold.1⟩
          intro heq
          obtain ⟨t', ht', -⟩ := hold
          rw [heq] at ht'
          exact hclosed s t' ht'
        exact (hflow.tokens.close_replied hperm hclose).mono (fun _ => Iff.rfl)
          (fun _ _ => hsame.later.notice)
    · refine hflow.frame hsame.later ?_ ?_ ?_ ?_ ?_ (holds_congr hsame.tx)
      · rw [hup]
      · rw [hans, update₂_other _ _ hpair]
      · rw [hacks]
      · rw [howed]
      · rw [hsame.storeQ]
  · constructor
    · rw [hdata, hsame.tx]
      exact h.side.data
    · intro id hid
      rw [hextra, Table.lookup_erase] at hid
      split at hid
      · cases hid
      · rename_i hne
        rw [hsame.tx]
        rcases h.side.extra id hid with hopen | ⟨s, d', hmem⟩
        · exact .inl hopen
        · exact .inr ⟨s, d', hkept s d' _ hmem hne⟩
    · rw [hingress, hpending]
      exact h.side.bare

/-- A completed message or request of an mbarrier. -/
theorem Accounts.arriveMbar (h : Accounts e) (hbase : Base e)
    (htop : e.fab.top sm .response = some q) (hcls : q.packetClass = .mbarrierCompletion) :
    Accounts (arriveMbarCompletion host
      { e with fab := e.fab.poppedHead .response sm q } sm q.transactionId) := by
  obtain ⟨-, hup, -, hreply⟩ := popResponse_traffic hbase htop
  obtain ⟨l, hperm, hans, hacks⟩ := hreply (by simp [hcls])
  have htables := withFab_tables (e := e) (e.fab.poppedHead .response sm q) rfl
  obtain ⟨g, hg, hostState, events, heq, hsilent⟩ := arriveMbarCompletion_spec host
    { e with fab := e.fab.poppedHead .response sm q } sm q.transactionId
  have hlast := silent_tables g hostState hsilent
  rw [heq]
  rcases h.response_owner hperm with ⟨t, hlook, htarget, htcls, hs, hstore⟩ | hnotice
  · rcases hg with ⟨-, rfl⟩ | ⟨hnone, -⟩
    · have hload : Ended e (completeLoad host
          { e with fab := e.fab.poppedHead .response sm q } sm q.transactionId) sm
          q.transactionId t e.storeQ := by
        refine completeLoad_ended htables hlook hs hstore ?_ rfl
        intro id' hid'
        refine ⟨hid', fun hc => absurd ?_ hc⟩
        rw [htcls, hcls]
        rfl
      obtain ⟨g, hsame, hdone⟩ := hload.same
      have hended := Ended.mk hload.look hload.stores ⟨g, hsame, hdone.trans hlast⟩ hload.data
        hload.extra
      rw [← htarget] at hperm hans
      exact h.ended_replied hended hstore hperm hans hup hacks rfl (fun _ hp => hp)
    · have hnone' : (e.tx sm).lookup q.transactionId = none := hnone hs
      rw [hlook] at hnone'
      cases hnone'
  · -- nothing is open under the id of a message
    have hclosed : ∀ s t, (e.tx s).lookup q.transactionId ≠ some t := by
      intro s t ht
      exact hnotice.2.2 _ (h.tables.live s _ t ht).1 (h.tables.entry s _ t ht).1
    have hclosed : ∀ s' t', (e.tx s').lookup q.transactionId ≠ some t' := by
      intro s' t' ht
      exact hnotice.2.2 _ (h.tables.live s' _ t' ht).1 (h.tables.entry s' _ t' ht).1
    rcases hg with ⟨hsome, -⟩ | ⟨-, rfl⟩
    · obtain ⟨t', ht'⟩ := Option.isSome_iff_exists.mp hsome
      exact absurd ht' (hclosed sm t')
    · have hsame : SameTables e { e with
          fab := e.fab.poppedHead .response sm q, extra := e.extra.erase q.transactionId
          hostState := hostState, history := e.history ++ events } :=
        ⟨rfl, rfl, Nat.le_refl _, rfl, rfl, events, rfl, hsilent⟩
      exact h.noticeDone hsame hclosed hperm hans hup hacks rfl rfl rfl rfl rfl

/-! ### Every move keeps the accounts -/

theorem Accounts.arriveResponse (h : Accounts e) (hbase : Base e)
    (htop : e.fab.top sm .response = some q) :
    Accounts (arriveResponse host { e with fab := e.fab.poppedHead .response sm q } sm q) := by
  obtain ⟨hvc, -⟩ := popResponse_traffic hbase htop
  cases hcls : q.packetClass with
  | writeAck => exact h.arriveAck hbase htop hcls
  | readData =>
    simp only [DsmEndpoint.arriveResponse, hcls]
    exact h.arriveData hbase htop (.inl hcls)
  | atomicResponse =>
    simp only [DsmEndpoint.arriveResponse, hcls]
    exact h.arriveData hbase htop (.inr hcls)
  | mbarrierCompletion =>
    simp only [DsmEndpoint.arriveResponse, hcls]
    exact h.arriveMbar hbase htop hcls
  | _ => simp [hcls, dsmVcOf] at hvc

/-- A request that is dropped ends its transaction. -/
theorem Accounts.mbarDrop (h : Accounts e) (hingress : e.ingress = before ++ p :: behind)
    (hcls : p.cls = .mbarrierRequest) :
    Accounts { completeLoad host e p.dst p.txid with ingress := before ++ behind } := by
  obtain ⟨after, hsplit, hup, hacks⟩ := drop_traffic
    { completeLoad host e p.dst p.txid with ingress := before ++ behind } hingress rfl rfl
  have hmem : p.token ∈ e.upstream p.dst p.src := by
    rw [hsplit]
    exact List.mem_append_right _ List.mem_cons_self
  obtain ⟨t, hlook, htarget, htcls⟩ := (h.flow p.dst p.src).tokens.asked p.token hmem
  have hmbar : t.cls = .mbarrierRequest := by
    rw [htcls]
    change p.cls.ofRequest = .mbarrierRequest
    rw [hcls]
    rfl
  have hload : Ended e (completeLoad host e p.dst p.txid) p.dst p.txid t e.storeQ :=
    completeLoad_ended ⟨rfl, rfl, Nat.le_refl _, rfl, rfl, [], (List.append_nil _).symm, List.forall_mem_nil _⟩
      hlook (h.tables.entry _ _ _ hlook).2.2.1 (by rw [hmbar]; rfl)
      (fun _ hid => ⟨hid, fun hc => absurd hmbar hc⟩) rfl
  have hended : Ended e { completeLoad host e p.dst p.txid with ingress := before ++ behind }
      p.dst p.txid t e.storeQ := by
    obtain ⟨g, hsame, hdone⟩ := hload.same
    exact ⟨hload.look, hload.stores,
      ⟨g, hsame, hdone.n, hdone.cfg, hdone.nextTx, hdone.tx, hdone.storeQ, hdone.history⟩,
      hload.data, hload.extra⟩
  have htoken : p.token = (p.txid, t.cls) := Prod.ext rfl htcls.symm
  rw [← htarget, htoken] at hsplit
  rw [← htarget] at hup
  refine h.ended_asked hended (by rw [hmbar]; rfl) hsplit hup rfl hacks rfl ?_
  intro r hr
  rw [hingress]
  simp only [List.mem_append, List.mem_cons] at hr ⊢
  rcases hr with (hr | hr) | hr
  · exact .inl (.inl hr)
  · exact .inl (.inr (.inr hr))
  · exact .inr hr

/-- A replaced entry of `m_ingress` has data only where the old one may have it. -/
theorem replaced_bare (h : SideTables e) {q : Pending}
    (hingress : e.ingress = before ++ p :: behind)
    (hq : q.cls.ofRequest = .mbarrierRequest → p.cls.ofRequest = .mbarrierRequest ∧
      q.payload = p.payload) :
    ∀ r ∈ (before ++ q :: behind) ++ e.pending,
      r ∈ e.ingress ++ e.pending ∨ (r.cls.ofRequest = .mbarrierRequest → r.payload = []) := by
  have hp : p ∈ e.ingress ++ e.pending := by
    rw [hingress]
    exact List.mem_append_left _ (List.mem_append_right _ List.mem_cons_self)
  intro r hr
  rw [hingress]
  simp only [List.mem_append, List.mem_cons] at hr ⊢
  rcases hr with (hr | rfl | hr) | hr
  · exact .inl (.inl (.inl hr))
  · right
    intro hcls
    obtain ⟨hcls', hpayload⟩ := hq hcls
    rw [hpayload]
    exact h.bare p hp hcls'
  · exact .inl (.inl (.inr (.inr hr)))
  · exact .inl (.inr hr)

/-- A satisfied wait overwrites what it finds in `m_extra`. -/
theorem satisfyWait_spec (e : DsmEndpoint σ) (p : Pending) :
    ∃ extra op, e.satisfyWait p = ({ e with extra := extra }, { p with mbarOp := op }) ∧
      ∀ id, (extra.lookup id).isSome → (e.extra.lookup id).isSome := by
  unfold satisfyWait
  split
  · refine ⟨_, _, rfl, ?_⟩
    intro id hid
    split at hid
    · rename_i x hlook
      rw [Table.lookup_insert] at hid
      split at hid
      · rename_i hsame
        rw [hsame, hlook]
        rfl
      · exact hid
    · exact hid
  · exact ⟨e.extra, p.mbarOp, rfl, fun _ hid => hid⟩

theorem Move.accounts (hmove : Move host guard e e') (hbase : Base e) (h : Accounts e) :
    Accounts e' := by
  have hnone : ∃ events, e.history = e.history ++ events ∧
      ∀ event ∈ events, event.Silent := ⟨[], (List.append_nil _).symm, List.forall_mem_nil _⟩
  cases hmove with
  | @fabric now fab htime hcycled =>
    exact h.quiet (cycled_traffic hbase hcycled)
      ⟨hcycled.setup.n, rfl, Nat.le_refl _, rfl, rfl, hnone⟩ rfl rfl (fun _ hid => hid)
      (fun _ hp => .inl hp)
  | accept x _ hvc hmbar hsend => exact h.accept x hvc hmbar hsend
  | @notice m => exact h.notice m
  | @send p before behind hpending hcan =>
    refine h.send hpending (hbase.pending p ?_)
    rw [hpending]
    exact List.mem_append_right _ List.mem_cons_self
  | @arriveRequest sm p htop =>
    have htraffic := arriveRequest_traffic hbase htop
    unfold DsmEndpoint.arriveRequest at htraffic ⊢
    simp only at htraffic ⊢
    have hbare : ∀ r ∈ (e.ingress ++ [({ e with fab := e.fab.poppedHead .request sm p } :
        DsmEndpoint σ).ingressEntry sm p]) ++ e.pending,
        r ∈ e.ingress ++ e.pending ∨ (r.cls.ofRequest = .mbarrierRequest → r.payload = []) := by
      intro r hr
      simp only [List.mem_append, List.mem_singleton] at hr ⊢
      rcases hr with (hr | rfl) | hr
      · exact .inl (.inl hr)
      · exact .inr (fun _ => rfl)
      · exact .inl (.inr hr)
    split at htraffic
    · rename_i hzero
      rw [if_pos hzero]
      exact h.quiet htraffic ⟨rfl, rfl, Nat.le_refl _, rfl, rfl, hnone⟩ rfl rfl
        (fun _ hid => hid) hbare
    · rename_i hzero
      rw [if_neg hzero]
      exact h.quiet htraffic ⟨rfl, rfl, Nat.le_refl _, rfl, rfl, hnone⟩ rfl rfl
        (fun _ hid => hid) hbare
  | arriveResponse htop => exact h.arriveResponse hbase htop
  | smem smem =>
    exact h.quiet (.of_queues rfl rfl rfl) ⟨rfl, rfl, Nat.le_refl _, rfl, rfl, hnone⟩ rfl rfl
      (fun _ hid => hid) (fun _ hp => .inl hp)
  | @fill p before behind got hingress hdone hshort =>
    exact h.quiet (replace_traffic (q := { p with sramGot := got }) hingress rfl rfl rfl rfl
      rfl rfl) ⟨rfl, rfl, Nat.le_refl _, rfl, rfl, hnone⟩ rfl rfl (fun _ hid => hid)
      (replaced_bare h.side hingress (fun hcls => ⟨hcls, rfl⟩))
  | @store p before behind got hingress hdone hstore hfirst =>
    obtain ⟨g, haccess, heq⟩ := applyStore_eq host e { p with sramGot := got }
    have hnotify := notifyTmaMbar_access host (applyStore host e { p with sramGot := got })
      { p with sramGot := got }
    have hframe := (applyStore_applied host e { p with sramGot := got }).trans hnotify.applied
    rw [heq] at hnotify
    have happlied := (h.applyStore hingress hstore haccess hnotify).withIngress
      (before ++ behind)
    rw [← heq] at happlied
    obtain ⟨_, _, _, _, _, _, hsame⟩ := hframe
    rw [hsame] at happlied ⊢
    exact h.store hingress hstore hfirst happlied rfl rfl rfl rfl rfl
  | @reply p before behind got hingress hdone hcls =>
    have hstore : ({ p with sramGot := got } : Pending).cls.isStore = false := by
      rcases hcls with hcls | hcls
      · simp [hcls, DsmPacketClass.isStore]
      · simp [hcls, DsmPacketClass.isStore]
    have haccess := applySram_access host e hstore
    have htables := haccess.tables
    obtain ⟨hostState, history, heq, -⟩ := haccess
    obtain ⟨payload, hentry⟩ := @applySram_entry _ { p with sramGot := got } host e hcls
    rw [heq] at htables
    rw [heq]
    generalize hserved : (applySram host e { p with sramGot := got }).2.served e.now = q
    rw [hentry] at hserved
    have hsrc : q.src = p.src := by rw [← hserved]; rfl
    have hdst : q.dst = p.dst := by rw [← hserved]; rfl
    have hclass : q.cls.ofRequest = p.cls := by
      rw [← hserved]
      rcases hcls with hcls | hcls
      · simp [Pending.served, hcls, DsmPacketClass.ofRequest]
      · simp [Pending.served, hcls, DsmPacketClass.ofRequest]
    have hclass' : p.cls.ofRequest = p.cls := by
      rcases hcls with hcls | hcls
      · rw [hcls]
        rfl
      · rw [hcls]
        rfl
    have htoken : q.token = p.token := by
      unfold Pending.token
      rw [hclass, hclass', ← hserved]
      rfl
    refine h.quiet (replace_traffic hingress hsrc hdst htoken rfl rfl rfl)
      ⟨htables.n, htables.cfg, htables.nextTx, htables.tx, htables.storeQ, htables.history⟩
      rfl rfl (fun _ hid => hid) (replaced_bare h.side hingress ?_)
    rw [hclass]
    rcases hcls with hcls | hcls
    · simp [hcls]
    · simp [hcls]
  | @mbarCall p before behind got fn hingress hdone hcls hdeliver hhook =>
    refine h.quiet (.of_queues rfl rfl rfl)
      ⟨rfl, rfl, Nat.le_refl _, rfl, rfl, [.mbarReq _ _], rfl, ?_⟩ rfl rfl
      (fun _ hid => hid) (fun _ hp => .inl hp)
    intro event hevent
    rw [List.mem_singleton.mp hevent]
    trivial
  | @mbarReply p before behind got hingress hdone hcls =>
    obtain ⟨extra, op, heq, hextra⟩ := satisfyWait_spec e ({ p with sramGot := got }.served e.now)
    rw [heq]
    refine h.quiet (replace_traffic (q := { { p with sramGot := got }.served e.now with
        mbarOp := op, cls := .mbarrierCompletion }) hingress rfl rfl ?_ rfl rfl rfl)
      ⟨rfl, rfl, Nat.le_refl _, rfl, rfl, hnone⟩ rfl rfl hextra
      (replaced_bare h.side hingress (fun _ => ⟨by rw [hcls]; rfl, rfl⟩))
    simp [Pending.token, Pending.served, hcls, DsmPacketClass.ofRequest]
  | mbarDrop hingress hdone hcls => exact h.mbarDrop hingress hcls
  | ready hingress hdone => exact h.ready hingress ((hbase.entry hingress).answer hdone)
  | flush howed hcan => exact h.flush howed
  | @bump sm cta _ =>
    unfold bumpCtaGen
    split
    · exact h.quiet (.of_queues rfl rfl rfl) ⟨rfl, rfl, Nat.le_refl _, rfl, rfl, hnone⟩ rfl
        rfl (fun _ hid => hid) (fun _ hp => .inl hp)
    · exact h
  | outside hout =>
    exact h.quiet (.of_queues rfl rfl rfl) ⟨rfl, rfl, Nat.le_refl _, rfl, rfl, hnone⟩ rfl rfl
      (fun _ hid => hid) (fun _ hp => .inl hp)

variable {topo : GpuTopology} {gpc : Nat} {fcfg : DsmFabricConfig} {cfg : DsmEndpointConfig}

theorem Built.accounts (h : Built topo gpc fcfg cfg e) : Accounts e := by
  obtain ⟨fab, smem, hostState, hfab, rfl⟩ := h
  obtain ⟨-, -, hbuffers⟩ := DsmFabric.construct_spec hfab
  have hlane : ∀ k, fab.lane k = [] := by
    intro k
    rw [hbuffers]
    rfl
  have hup : ∀ s d, (construct fab cfg smem hostState).upstream s d = [] := by
    intro s d
    change _ ++ (fab.lane _).map _ = _
    rw [hlane]
    rfl
  have hans : ∀ s d, (construct fab cfg smem hostState).answered s d = [] := by
    intro s d
    change _ ++ ((fab.lane _).filter _).map _ = _
    rw [hlane]
    rfl
  have hacks : ∀ s d, (construct fab cfg smem hostState).acks s d = [] := by
    intro s d
    change ((fab.lane _).filter _).map _ = _
    rw [hlane]
    rfl
  refine ⟨?_, ?_, ?_⟩
  · constructor
    · exact nofun
    · intro s d id
      constructor
      · exact nofun
      · rintro ⟨t, ht, -⟩
        cases ht
    · exact fun _ _ => List.nodup_nil
    · exact nofun
    · exact fun _ ht => absurd ht List.not_mem_nil
    · exact fun _ _ ht => absurd ht List.not_mem_nil
    · exact fun _ ht => absurd ht List.not_mem_nil
    · exact fun _ hdone => absurd hdone List.not_mem_nil
    · exact List.nodup_nil
    · intro done id later heq
      cases done <;> cases heq
    · exact fun _ => Nat.zero_le _
  · intro s d
    constructor
    · unfold ledger
      rw [hup, hacks]
      exact AckLedger.balanced_empty _
    · rw [hup, hans]
      apply Carried.empty
      rintro token ⟨t, ht, -⟩
      cases ht
  · exact ⟨nofun, nofun, List.forall_mem_nil _⟩

/-- The accounts hold in every state of every run. -/
theorem Reachable.accounts (h : Reachable host guard topo gpc fcfg cfg e)
    (hissue : ∀ m : IssueMbar, guard.issue m.request) : Base e ∧ Accounts e :=
  h.invariant Accounts hissue (fun _ hbuilt => hbuilt.accounts)
    (fun _ _ hbase haccounts hmove => hmove.accounts hbase haccounts)

end DsmEndpoint

end FlashGpuSim
