import FlashGpuSim.Dsm.EndpointLedger

/-!
Stores that are applied and transactions that end. An applied store moves from the
travelling ones to what its target owes, an acknowledgement ends as many stores as it
counts, and every other transaction ends with its own token.
-/

namespace FlashGpuSim

open Lib Relation

namespace DsmEndpoint

variable {σ : Type} {host : DsmHost σ} {guard : DsmGuard σ} {e e' g : DsmEndpoint σ}
  {p : Pending} {before behind : List Pending} {s d id : Nat} {t : DsmTx} {token : Token}
  {storeQ : Nat → Nat → List Nat}

/-! ### A store is applied -/

theorem Access.tables (h : Access e e') : SameTables e e' := by
  obtain ⟨_, _, rfl, events, heq, hcurrent⟩ := h
  exact ⟨rfl, rfl, Nat.le_refl _, rfl, rfl, events, heq,
    fun event hevent => (hcurrent event hevent).silent⟩

theorem accrueAck_tables (s d : Nat) : SameTables e (e.accrueAck s d) := by
  have hnone : ∃ events, e.history = e.history ++ events ∧
      ∀ event ∈ events, event.Silent := ⟨[], (List.append_nil _).symm, List.forall_mem_nil _⟩
  unfold accrueAck
  split
  · exact ⟨rfl, rfl, Nat.le_refl _, rfl, rfl, hnone⟩
  · exact ⟨rfl, rfl, Nat.le_refl _, rfl, rfl, hnone⟩

theorem accrueAck_owed (hsrc : s < e.n) (hdst : d < e.n) :
    (e.accrueAck s d).acksOwed = update₂ e.acksOwed s d (e.acksOwed s d + 1) := by
  unfold accrueAck
  rw [if_pos ⟨hsrc, hdst⟩]

theorem flagged_later (e : DsmEndpoint σ) (s id : Nat) (t : DsmTx) :
    Later e (e.flagged s id t) := by
  refine ⟨Nat.le_refl _, ?_, ?_⟩
  · intro t' ht'
    change .accepted t' ∈ e.history ++ [DsmEvent.applied id] at ht'
    exact .inl (by simpa using ht')
  · intro id' hid'
    exact List.mem_append_left _ hid'

theorem flagged_holds (hlook : (e.tx s).lookup id = some t) {s' : Nat} :
    (e.flagged s id t).Holds s' d token ↔ e.Holds s' d token := by
  unfold Holds
  rw [flagged_lookup hlook]
  split
  · rename_i hsame
    obtain ⟨rfl, hid⟩ := hsame
    rw [hid, hlook]
    simp
  · rfl

theorem isStore_ofRequest (c : DsmPacketClass) : c.ofRequest.isStore = c.isStore := by
  cases c <;> rfl

/-- No store stands before the first one of its SM. -/
theorem between_no_store (hfirst : ∀ q ∈ before, q.src = d → q.cls.isStore = false) :
    ((between before s d).map Pending.token).filter (fun token => token.2.isStore) = [] := by
  rw [List.filter_eq_nil_iff]
  intro token htoken
  obtain ⟨q, hq, rfl⟩ := List.mem_map.mp htoken
  obtain ⟨hmem, hpair⟩ := List.mem_filter.mp hq
  have hsrc : q.src = d := by
    simp only [decide_eq_true_eq] at hpair
    exact hpair.1
  simp [Pending.token, isStore_ofRequest, hfirst q hmem hsrc]

/-- The open transaction of a store in `m_ingress`. -/
theorem Accounts.store_holds (h : Accounts e) (hingress : e.ingress = before ++ p :: behind)
    (hstore : p.cls.isStore = true) :
    ∃ t, (e.tx p.dst).lookup p.txid = some t ∧ t.target = p.src ∧ t.cls = p.cls := by
  have hmem : p.token ∈ e.upstream p.dst p.src := by
    apply List.mem_append_left
    rw [hingress]
    apply List.mem_map_of_mem
    exact List.mem_filter.mpr ⟨List.mem_append_right _ List.mem_cons_self, by simp⟩
  obtain ⟨t, ht, htarget, hcls⟩ := (h.flow p.dst p.src).tokens.asked p.token hmem
  refine ⟨t, ht, htarget, hcls.trans ?_⟩
  change p.cls.ofRequest = p.cls
  cases hc : p.cls <;> simp_all [DsmPacketClass.isStore, DsmPacketClass.ofRequest]

/-- The endpoint `e'` is `e` after the store of the entry `p` was applied. -/
structure StoreApplied (e e' : DsmEndpoint σ) (p : Pending) : Prop where
  tables : Tables e'
  later : Later e e'
  applied : .applied p.txid ∈ e'.history
  holds : ∀ s d token, e'.Holds s d token ↔ e.Holds s d token
  opened : ∀ s id t, (e.tx s).lookup id = some t →
    ∃ t', (e'.tx s).lookup id = some t' ∧ t'.cls = t.cls
  storeQ : e'.storeQ = e.storeQ
  owed : e'.acksOwed = update₂ e.acksOwed p.src p.dst (e.acksOwed p.src p.dst + 1)

theorem StoreApplied.withIngress (h : StoreApplied e e' p) (ingress : List Pending) :
    StoreApplied e { e' with ingress := ingress } p := by
  refine ⟨h.tables.same ?_, ⟨h.later.nextTx, h.later.accepted, h.later.applied⟩, h.applied,
    h.holds, h.opened, h.storeQ, h.owed⟩
  exact ⟨rfl, rfl, Nat.le_refl _, rfl, rfl, [], (List.append_nil _).symm, List.forall_mem_nil _⟩

theorem Accounts.applyStore (h : Accounts e) (hingress : e.ingress = before ++ p :: behind)
    (hstore : p.cls.isStore = true) (haccess : Access e g)
    (hnotify : Access ((g.accrueAck p.src p.dst).markApplied p.dst p.txid) e') :
    StoreApplied e e' p := by
  obtain ⟨t, hlook, htarget, hcls⟩ := h.store_holds hingress hstore
  obtain ⟨-, -, hdst, hsrc, -⟩ := h.tables.entry _ _ _ hlook
  rw [htarget] at hsrc
  have howed : g.acksOwed = e.acksOwed := by
    obtain ⟨_, _, rfl, -⟩ := haccess
    rfl
  have hn : g.n = e.n := haccess.tables.n
  have haccrued := accrueAck_owed (e := g) (s := p.src) (d := p.dst) (by omega) (by omega)
  rw [howed] at haccrued
  have hn₁ : (g.accrueAck p.src p.dst).n = e.n := (accrueAck_tables p.src p.dst).n.trans hn
  have htx₁ : (g.accrueAck p.src p.dst).tx = e.tx :=
    (accrueAck_tables p.src p.dst).tx.trans haccess.tables.tx
  have hlook₁ : ((g.accrueAck p.src p.dst).tx p.dst).lookup p.txid = some t := by
    rw [htx₁]
    exact hlook
  have hlater₁ := haccess.tables.later.trans
    (accrueAck_tables (e := g) p.src p.dst).later
  have hstores₁ : (g.accrueAck p.src p.dst).storeQ = e.storeQ :=
    (accrueAck_tables p.src p.dst).storeQ.trans haccess.tables.storeQ
  have htables₁ := (h.tables.same haccess.tables).same (accrueAck_tables p.src p.dst)
  -- from here on only the endpoint with the accrued acknowledgement matters
  generalize g.accrueAck p.src p.dst = g₁ at *
  rw [markApplied_eq hlook₁ (by omega)] at hnotify
  have hflagged := flagged_later g₁ p.dst p.txid t
  refine ⟨(htables₁.flagged hlook₁).same hnotify.tables, ?_, ?_, ?_, ?_, ?_, ?_⟩
  · exact (hlater₁.trans hflagged).trans hnotify.tables.later
  · exact hnotify.tables.later.applied _ (List.mem_append_right _ List.mem_cons_self)
  · intro s d token
    rw [holds_congr hnotify.tables.tx, flagged_holds hlook₁, holds_congr htx₁]
  · intro s id t' ht'
    rw [hnotify.tables.tx, flagged_lookup hlook₁, htx₁]
    split
    · rename_i hsame
      obtain ⟨rfl, rfl⟩ := hsame
      rw [hlook] at ht'
      obtain rfl := Option.some.inj ht'
      exact ⟨_, rfl, rfl⟩
    · exact ⟨t', ht', rfl⟩
  · exact hnotify.tables.storeQ.trans hstores₁
  · obtain ⟨_, _, rfl, -⟩ := hnotify
    exact haccrued

theorem Accounts.store (h : Accounts e) (hingress : e.ingress = before ++ p :: behind)
    (hstore : p.cls.isStore = true)
    (hfirst : ∀ q ∈ before, q.src = p.src → q.cls.isStore = false)
    (happlied : StoreApplied e e' p) (hfab : e'.fab = e.fab)
    (hingress' : e'.ingress = before ++ behind) (hpending : e'.pending = e.pending)
    (hdata : e'.data = e.data) (hextra : e'.extra = e.extra) : Accounts e' := by
  obtain ⟨after, hsplit, hup, hacks⟩ := drop_traffic e' hingress hfab hingress'
  have hans : e'.answered = e.answered := answered_congr (fun k => by rw [hfab]) hpending
  have hcounted : DsmPacketClass.isStore p.token.2 = true := by
    change p.cls.ofRequest.isStore = true
    rw [isStore_ofRequest]
    exact hstore
  refine ⟨happlied.tables, ?_, ?_⟩
  · intro s d
    have hflow := h.flow s d
    by_cases hpair : s = p.dst ∧ d = p.src
    · obtain ⟨rfl, rfl⟩ := hpair
      have hnone := between_no_store (s := p.dst) hfirst
      constructor
      · have htravelling : (e.ledger p.dst p.src).travelling =
            p.txid :: ((after.filter (fun token => token.2.isStore)).map Prod.fst) := by
          have hhead : (p.token :: after).filter (fun token => token.2.isStore) =
              p.token :: after.filter (fun token => token.2.isStore) :=
            List.filter_cons_of_pos hcounted
          unfold ledger
          rw [hsplit, List.filter_append, hnone, List.nil_append, hhead]
          rfl
        have hledger : e'.ledger p.dst p.src = { e.ledger p.dst p.src with
            travelling := (after.filter (fun token => token.2.isStore)).map Prod.fst
            owed := (e.ledger p.dst p.src).owed + 1 } := by
          unfold ledger
          rw [hup, hacks, happlied.owed, happlied.storeQ, update₂_self, update₂_self,
            List.filter_append, hnone, List.nil_append]
        rw [hledger]
        exact (hflow.ledger.mono happlied.later.applied).apply htravelling happlied.applied
      · have htokens := hflow.tokens
        rw [hsplit] at htokens
        rw [hup, hans, update₂_self]
        exact (htokens.count hcounted).mono (happlied.holds _ _)
          (fun _ _ => happlied.later.notice)
    · refine hflow.frame happlied.later ?_ ?_ ?_ ?_ ?_ (happlied.holds s d)
      · rw [hup, update₂_other _ _ hpair]
      · rw [hans]
      · rw [hacks]
      · rw [happlied.owed, update₂_other _ _ (fun hc => hpair ⟨hc.2, hc.1⟩)]
      · rw [happlied.storeQ]
  · refine h.side.frame happlied.opened ?_ ?_ ?_ ?_
    · intro s d id hmem
      rw [hans]
      exact hmem
    · rw [hdata]
      exact fun _ hid => hid
    · rw [hextra]
      exact fun _ hid => hid
    · intro q hq
      left
      rw [hingress', hpending] at hq
      rw [hingress]
      simp only [List.mem_append, List.mem_cons] at hq ⊢
      rcases hq with (hq | hq) | hq
      · exact .inl (.inl hq)
      · exact .inl (.inr (.inr hq))
      · exact .inr hq

/-! ### A transaction ends -/

theorem StoreLeaves.same (h : StoreLeaves e s id t storeQ) (hsame : SameTables e g) :
    StoreLeaves g s id t storeQ := by
  cases h with
  | store hstore hqueue happlied =>
    rw [← hsame.storeQ]
    refine .store hstore ?_ (hsame.later.applied id happlied)
    rw [hsame.storeQ]
    exact hqueue
  | other hstore =>
    rw [← hsame.storeQ]
    exact .other hstore

/-- The endpoint `e'` is `e` after the transaction `t` of `s` left its table. -/
structure Ended (e e' : DsmEndpoint σ) (s id : Nat) (t : DsmTx)
    (storeQ : Nat → Nat → List Nat) : Prop where
  look : (e.tx s).lookup id = some t
  stores : StoreLeaves e s id t storeQ
  same : ∃ g, SameTables e g ∧ SameTables (g.finished s id storeQ) e'
  data : ∀ id', (e'.data.lookup id').isSome →
    (e.data.lookup id').isSome ∧ (t.cls ≠ .mbarrierRequest → id' ≠ id)
  extra : ∀ id', (e'.extra.lookup id').isSome → (e.extra.lookup id').isSome ∧ id' ≠ id

theorem finished_later (e : DsmEndpoint σ) (s id : Nat) (storeQ : Nat → Nat → List Nat) :
    Later e (e.finished s id storeQ) := by
  refine ⟨Nat.le_refl _, ?_, ?_⟩
  · intro t' ht'
    change .accepted t' ∈ e.history ++ [DsmEvent.txDone id] at ht'
    exact .inl (by simpa using ht')
  · intro id' hid'
    exact List.mem_append_left _ hid'

theorem Ended.later (h : Ended e e' s id t storeQ) : Later e e' := by
  obtain ⟨g, hsame, hdone⟩ := h.same
  exact (hsame.later.trans (finished_later g s id storeQ)).trans hdone.later

theorem Ended.tables (h : Ended e e' s id t storeQ) (htables : Tables e) : Tables e' := by
  obtain ⟨g, hsame, hdone⟩ := h.same
  refine ((htables.same hsame).finished ?_ (h.stores.same hsame)).same hdone
  rw [hsame.tx]
  exact h.look

theorem Ended.lookup (h : Ended e e' s id t storeQ) (s' id' : Nat) :
    (e'.tx s').lookup id' = if s' = s ∧ id' = id then none else (e.tx s').lookup id' := by
  obtain ⟨g, hsame, hdone⟩ := h.same
  rw [hdone.tx, finished_lookup, hsame.tx]

theorem Ended.storeQ_eq (h : Ended e e' s id t storeQ) : e'.storeQ = storeQ := by
  obtain ⟨g, -, hdone⟩ := h.same
  exact hdone.storeQ

/-- The tokens of the SM lose the one of the transaction. -/
theorem Ended.holds (h : Ended e e' s id t storeQ) (d : Nat) (token : Token) :
    e'.Holds s d token ↔ e.Holds s d token ∧ token.1 ≠ id := by
  unfold Holds
  rw [h.lookup]
  by_cases hid : token.1 = id
  · simp [hid]
  · simp [hid]

/-- The tokens of another pair are the same. -/
theorem Ended.holds_other (h : Ended e e' s id t storeQ) {s' d' : Nat}
    (hpair : ¬ (s' = s ∧ d' = t.target)) (token : Token) :
    e'.Holds s' d' token ↔ e.Holds s' d' token := by
  unfold Holds
  rw [h.lookup]
  split
  · rename_i hsame
    obtain ⟨rfl, hid⟩ := hsame
    constructor
    · rintro ⟨_, hnone, -⟩
      cases hnone
    · rintro ⟨t', ht', htarget, -⟩
      rw [hid, h.look] at ht'
      obtain rfl := Option.some.inj ht'
      exact absurd ⟨rfl, htarget.symm⟩ hpair
  · rfl

/-- The store queues of other pairs are the same. -/
theorem Ended.storeQ_other (h : Ended e e' s id t storeQ) {s' d' : Nat}
    (hpair : ¬ (s' = s ∧ d' = t.target)) : e'.storeQ s' d' = e.storeQ s' d' := by
  rw [h.storeQ_eq]
  cases h.stores with
  | store hstore hqueue happlied => exact update₂_other _ _ hpair
  | other hstore => rfl

theorem Ended.side (h : Ended e e' s id t storeQ) (hside : SideTables e)
    (hans : ∀ s' d' token, token ∈ e.answered s' d' → token.1 ≠ id →
      token ∈ e'.answered s' d')
    (hqueues : ∀ p ∈ e'.ingress ++ e'.pending, p ∈ e.ingress ++ e.pending) :
    SideTables e' := by
  constructor
  · intro id' hid'
    obtain ⟨hold, hgone⟩ := h.data id' hid'
    obtain ⟨s', t', ht', hcls⟩ := hside.data id' hold
    refine ⟨s', t', ?_, hcls⟩
    rw [h.lookup, if_neg, ht']
    rintro ⟨rfl, rfl⟩
    rw [h.look] at ht'
    obtain rfl := Option.some.inj ht'
    exact hgone hcls rfl
  · intro id' hid'
    obtain ⟨hold, hne⟩ := h.extra id' hid'
    rcases hside.extra id' hold with ⟨s', t', ht'⟩ | ⟨s', d', hmem⟩
    · refine .inl ⟨s', t', ?_⟩
      rw [h.lookup, if_neg (fun hc => hne hc.2), ht']
    · exact .inr ⟨s', d', hans s' d' _ hmem hne⟩
  · exact fun p hp => hside.bare p (hqueues p hp)

/-- The end of a transaction that is not a store keeps the store queues. -/
theorem Ended.storeQ_same (h : Ended e e' s id t storeQ) (hstore : t.cls.isStore = false) :
    e'.storeQ = e.storeQ := by
  rw [h.storeQ_eq]
  cases h.stores with
  | store hc => simp [hc] at hstore
  | other => rfl

/-- A response ends its transaction. -/
theorem Accounts.ended_replied (h : Accounts e) (hended : Ended e e' s id t storeQ)
    (hstore : t.cls.isStore = false) {c : DsmPacketClass} {l : List Token}
    (hperm : (e.answered s t.target).Perm ((id, c) :: l))
    (hans : e'.answered = update₂ e.answered s t.target l) (hup : e'.upstream = e.upstream)
    (hacks : e'.acks = e.acks) (howed : e'.acksOwed = e.acksOwed)
    (hqueues : ∀ p ∈ e'.ingress ++ e'.pending, p ∈ e.ingress ++ e.pending) : Accounts e' := by
  have hstores := hended.storeQ_same hstore
  refine ⟨hended.tables h.tables, ?_, hended.side h.side ?_ hqueues⟩
  · intro s' d'
    have hflow := h.flow s' d'
    by_cases hpair : s' = s ∧ d' = t.target
    · obtain ⟨rfl, rfl⟩ := hpair
      constructor
      · have hledger : e'.ledger s' t.target = e.ledger s' t.target :=
          ledger_congr (by rw [hup]) (by rw [hacks]) (by rw [howed]) (by rw [hstores])
        rw [hledger]
        exact hflow.ledger.mono hended.later.applied
      · rw [hup, hans, update₂_self]
        exact (hflow.tokens.close_replied hperm (hended.holds t.target)).mono
          (fun _ => Iff.rfl) (fun _ _ => hended.later.notice)
    · refine hflow.frame hended.later ?_ ?_ ?_ ?_ ?_ (hended.holds_other hpair)
      · rw [hup]
      · rw [hans, update₂_other _ _ hpair]
      · rw [hacks]
      · rw [howed]
      · rw [hstores]
  · intro s' d' token htoken hne
    rw [hans, update₂_apply]
    split
    · rename_i hpair
      obtain ⟨rfl, rfl⟩ := hpair
      rcases List.mem_cons.mp (hperm.mem_iff.mp htoken) with rfl | hmem
      · exact absurd rfl hne
      · exact hmem
    · exact htoken

/-- A transaction ends together with its request. -/
theorem Accounts.ended_asked (h : Accounts e) (hended : Ended e e' s id t storeQ)
    (hstore : t.cls.isStore = false) {ahead after : List Token}
    (hsplit : e.upstream s t.target = ahead ++ (id, t.cls) :: after)
    (hup : e'.upstream = update₂ e.upstream s t.target (ahead ++ after))
    (hans : e'.answered = e.answered) (hacks : e'.acks = e.acks)
    (howed : e'.acksOwed = e.acksOwed)
    (hqueues : ∀ p ∈ e'.ingress ++ e'.pending, p ∈ e.ingress ++ e.pending) : Accounts e' := by
  have hstores := hended.storeQ_same hstore
  refine ⟨hended.tables h.tables, ?_, hended.side h.side ?_ hqueues⟩
  · intro s' d'
    have hflow := h.flow s' d'
    by_cases hpair : s' = s ∧ d' = t.target
    · obtain ⟨rfl, rfl⟩ := hpair
      constructor
      · have hledger : e'.ledger s' t.target = e.ledger s' t.target := by
          unfold ledger
          rw [hup, hacks, howed, hstores, update₂_self, hsplit]
          simp [hstore]
        rw [hledger]
        exact hflow.ledger.mono hended.later.applied
      · have htokens := hflow.tokens
        rw [hsplit] at htokens
        rw [hup, hans, update₂_self]
        exact (htokens.close_asked (hended.holds t.target)).mono
          (fun _ => Iff.rfl) (fun _ _ => hended.later.notice)
    · refine hflow.frame hended.later ?_ ?_ ?_ ?_ ?_ (hended.holds_other hpair)
      · rw [hup, update₂_other _ _ hpair]
      · rw [hans]
      · rw [hacks]
      · rw [howed]
      · rw [hstores]
  · intro s' d' token htoken _
    rw [hans]
    exact htoken

/-- `complete_load` for an open transaction that is not a store. -/
theorem completeLoad_ended (hsame : SameTables e g) (hlook : (e.tx s).lookup id = some t)
    (hs : s < e.n) (hstore : t.cls.isStore = false)
    (hdata : ∀ id', (g.data.lookup id').isSome →
      (e.data.lookup id').isSome ∧ (t.cls ≠ .mbarrierRequest → id' ≠ id))
    (hextra : g.extra = e.extra) :
    Ended e (completeLoad host g s id) s id t e.storeQ := by
  refine ⟨hlook, .other hstore, ⟨g, hsame, ?_⟩, hdata, ?_⟩
  · have htx : (completeLoad host g s id).tx = (g.finished s id e.storeQ).tx := by
      change (if s < g.n then _ else g.tx) = _
      rw [if_pos (by rw [hsame.n]; exact hs)]
      rfl
    exact ⟨rfl, rfl, Nat.le_refl _, htx, hsame.storeQ, [], (List.append_nil _).symm, List.forall_mem_nil _⟩
  · intro id' hid'
    change ((g.extra.erase id).lookup id').isSome at hid'
    rw [hextra, Table.lookup_erase] at hid'
    split at hid'
    · cases hid'
    · rename_i hne
      exact ⟨hid', hne⟩

/-! ### An acknowledgement arrives -/

/-- The accounts while `s` retires its stores to `d`, with `left` still to go. -/
structure Retiring (e : DsmEndpoint σ) (s d left : Nat) : Prop where
  tables : Tables e
  tokens : ∀ s' d', Carried DsmPacketClass.isStore (e.Holds s' d') e.Notice
    (e.upstream s' d') (e.answered s' d')
  others : ∀ s' d', ¬ (s' = s ∧ d' = d) →
    (e.ledger s' d').Balanced (fun id => .applied id ∈ e.history)
  ledger : AckLedger.Balanced (fun id => .applied id ∈ e.history)
    { e.ledger s d with acks := left :: e.acks s d }
  side : SideTables e

theorem Retiring.finish (h : Retiring e s d 0) : Accounts e := by
  refine ⟨h.tables, ?_, h.side⟩
  intro s' d'
  refine ⟨?_, h.tokens s' d'⟩
  by_cases hpair : s' = s ∧ d' = d
  · obtain ⟨rfl, rfl⟩ := hpair
    exact h.ledger.used
  · exact h.others s' d' hpair

/-- The next store of `s` to `d` ends. -/
theorem Retiring.ended {rest : List Nat} {left : Nat} (h : Retiring e s d (left + 1))
    (hqueue : e.storeQ s d = id :: rest) (htraffic : SameTraffic e e')
    (hended : Ended e e' s id t (update₂ e.storeQ s d rest)) (htarget : t.target = d)
    (hstore : t.cls.isStore = true) (howed : e'.acksOwed = e.acksOwed)
    (hqueues : ∀ p ∈ e'.ingress ++ e'.pending, p ∈ e.ingress ++ e.pending) :
    Retiring e' s d left := by
  subst htarget
  have hfirst : AckLedger.Balanced (fun id => .applied id ∈ e.history)
      ⟨id :: rest, (e.ledger s t.target).travelling, e.acksOwed t.target s,
        (left + 1) :: e.acks s t.target⟩ := by
    rw [← hqueue]
    exact h.ledger
  obtain ⟨-, hrest, hgone⟩ := hfirst.retire
  -- a retired store has no token left
  have htoken : ∀ other ∈ e.upstream s t.target ++ e.answered s t.target, other.1 ≠ id := by
    have hopen : ∀ other, e.Holds s t.target other → other.1 = id →
        other.2.isStore = true := by
      rintro other ⟨t', ht', -, hcls⟩ rfl
      rw [hended.look] at ht'
      obtain rfl := Option.some.inj ht'
      rw [← hcls]
      exact hstore
    intro other hother hid
    rcases List.mem_append.mp hother with hother | hother
    · have hnodup := h.tables.store_nodup s t.target
      rw [hqueue] at hnodup
      refine hgone hnodup (List.mem_map.mpr ⟨other, ?_, hid⟩)
      exact List.mem_filter.mpr
        ⟨hother, hopen other ((h.tokens s t.target).asked other hother) hid⟩
    · obtain ⟨howner, hcounted⟩ := (h.tokens s t.target).replied other hother
      rcases howner with hhold | hnotice
      · rw [hopen other hhold hid] at hcounted
        cases hcounted
      · obtain ⟨hlive, -⟩ := h.tables.live s id t hended.look
        refine hnotice.2.2 _ hlive ?_
        rw [hid]
        exact (h.tables.entry s id t hended.look).1
  refine ⟨hended.tables h.tables, ?_, ?_, ?_, hended.side h.side ?_ hqueues⟩
  · intro s' d'
    rw [htraffic.upstream, htraffic.answered]
    by_cases hpair : s' = s ∧ d' = t.target
    · obtain ⟨rfl, rfl⟩ := hpair
      exact ((h.tokens s' t.target).close htoken (hended.holds t.target)).mono
        (fun _ => Iff.rfl) (fun _ _ => hended.later.notice)
    · exact (h.tokens s' d').mono (hended.holds_other hpair)
        (fun _ _ => hended.later.notice)
  · intro s' d' hpair
    have hledger : e'.ledger s' d' = e.ledger s' d' :=
      ledger_congr (by rw [htraffic.upstream]) (by rw [htraffic.acks]) (by rw [howed])
        (hended.storeQ_other hpair)
    rw [hledger]
    exact (h.others s' d' hpair).mono hended.later.applied
  · have htravelling : (e'.ledger s t.target).travelling =
        (e.ledger s t.target).travelling := by
      unfold DsmEndpoint.ledger
      rw [htraffic.upstream]
    change AckLedger.Balanced _ ⟨e'.storeQ s t.target, (e'.ledger s t.target).travelling,
      e'.acksOwed t.target s, left :: e'.acks s t.target⟩
    rw [htravelling, htraffic.acks, howed, hended.storeQ_eq, update₂_self]
    exact hrest.mono hended.later.applied
  · intro s' d' token htoken' _
    rw [htraffic.answered]
    exact htoken'

/-- One turn of the loop in `complete_stores`. -/
theorem completeStore_ended {rest : List Nat} (hlook : (e.tx s).lookup id = some t)
    (htarget : t.target = d) (hstore : t.cls.isStore = true)
    (hqueue : e.storeQ s d = id :: rest) (happlied : .applied id ∈ e.history) :
    Ended e (completeStore host e s d id rest) s id t (update₂ e.storeQ s d rest) := by
  subst htarget
  refine ⟨hlook, .store hstore hqueue happlied, ⟨e, ?_, ?_⟩, ?_, ?_⟩
  · exact ⟨rfl, rfl, Nat.le_refl _, rfl, rfl, [], (List.append_nil _).symm, List.forall_mem_nil _⟩
  · exact ⟨rfl, rfl, Nat.le_refl _, rfl, rfl, [], (List.append_nil _).symm, List.forall_mem_nil _⟩
  · intro id' hid'
    change ((e.data.erase id).lookup id').isSome at hid'
    rw [Table.lookup_erase] at hid'
    split at hid'
    · cases hid'
    · rename_i hne
      exact ⟨hid', fun _ => hne⟩
  · intro id' hid'
    change ((e.extra.erase id).lookup id').isSome at hid'
    rw [Table.lookup_erase] at hid'
    split at hid'
    · cases hid'
    · rename_i hne
      exact ⟨hid', hne⟩

/-- An acknowledgement ends the stores it counts, and its target waits for no more. -/
theorem completeStores_accounts (left : Nat) (h : Retiring e s d left) :
    Accounts (completeStores host s d left e) := by
  induction left generalizing e with
  | zero => exact h.finish
  | succ left ih =>
    cases hqueue : e.storeQ s d with
    | nil =>
      have hledger := h.ledger
      unfold ledger at hledger
      rw [hqueue] at hledger
      exact absurd hledger.not_short id
    | cons id rest =>
      obtain ⟨t, hlook, htarget, hstore⟩ := (h.tables.store_iff s d id).mp (by
        rw [hqueue]
        exact List.mem_cons_self)
      obtain ⟨-, -, hs, hd, -⟩ := h.tables.entry s id t hlook
      have happlied : .applied id ∈ e.history := by
        have hledger := h.ledger
        unfold ledger at hledger
        rw [hqueue] at hledger
        exact hledger.retire.1
      unfold completeStores
      rw [if_pos ⟨hs, by omega⟩, hqueue]
      exact ih (h.ended hqueue (SameTraffic.of_queues rfl rfl rfl)
        (completeStore_ended hlook htarget hstore hqueue happlied) htarget hstore rfl
        (fun _ hp => hp))

end DsmEndpoint

end FlashGpuSim
