import FlashGpuSim.Lib.Tokens
import FlashGpuSim.Dsm.EndpointTables

/-!
What each transaction has under way. Between two SMs the stores are a ledger of
counted acknowledgements. Every other transaction has one token, among the requests
or among the responses. The side tables belong to transactions and messages under way.
-/

namespace FlashGpuSim

open Lib Relation

namespace DsmEndpoint

variable {σ : Type} {host : DsmHost σ} {guard : DsmGuard σ} {e e' : DsmEndpoint σ}
  {p : Pending} {before behind : List Pending} {s d id : Nat} {t : DsmTx} {token : Token}

/-- The stores of `s` to `d` and their acknowledgements. -/
def ledger (e : DsmEndpoint σ) (s d : Nat) : AckLedger Nat where
  waiting := e.storeQ s d
  travelling := ((e.upstream s d).filter (fun token => token.2.isStore)).map Prod.fst
  owed := e.acksOwed d s
  acks := e.acks s d

/-- The token of an open transaction of `s` to `d`. -/
def Holds (e : DsmEndpoint σ) (s d : Nat) (token : Token) : Prop :=
  ∃ t, (e.tx s).lookup token.1 = some t ∧ t.target = d ∧ t.cls = token.2

/-- The token of a `WAIT_DONE` message, which has no transaction. -/
def Notice (e : DsmEndpoint σ) (token : Token) : Prop :=
  token.2 = .mbarrierRequest ∧ token.1 ≤ e.nextTx ∧
    ∀ t, .accepted t ∈ e.history → t.id ≠ token.1

/-- What `s` has under way to `d`. -/
structure Flow (e : DsmEndpoint σ) (s d : Nat) : Prop where
  ledger : (e.ledger s d).Balanced (fun id => .applied id ∈ e.history)
  tokens : Carried DsmPacketClass.isStore (e.Holds s d) e.Notice (e.upstream s d)
    (e.answered s d)

/-- The entries of `m_data` and `m_extra`. -/
structure SideTables (e : DsmEndpoint σ) : Prop where
  data : ∀ id, (e.data.lookup id).isSome → ∃ s t,
    (e.tx s).lookup id = some t ∧ t.cls ≠ .mbarrierRequest
  extra : ∀ id, (e.extra.lookup id).isSome →
    (∃ s t, (e.tx s).lookup id = some t) ∨ ∃ s d, (id, .mbarrierRequest) ∈ e.answered s d
  bare : ∀ p ∈ e.ingress ++ e.pending, p.cls.ofRequest = .mbarrierRequest → p.payload = []

/-- The tables, the traffic and the history of an endpoint agree. -/
structure Accounts (e : DsmEndpoint σ) : Prop where
  tables : Tables e
  flow : ∀ s d, Flow e s d
  side : SideTables e

/-! ### What a move leaves alone -/

/-- The history of `e'` continues that of `e`. -/
structure Later (e e' : DsmEndpoint σ) : Prop where
  nextTx : e.nextTx ≤ e'.nextTx
  accepted : ∀ t, .accepted t ∈ e'.history → .accepted t ∈ e.history ∨ e.nextTx < t.id
  applied : ∀ id, .applied id ∈ e.history → .applied id ∈ e'.history

theorem Later.notice (h : Later e e') (hnotice : e.Notice token) : e'.Notice token := by
  obtain ⟨hcls, hbound, hnone⟩ := hnotice
  refine ⟨hcls, Nat.le_trans hbound h.nextTx, ?_⟩
  intro t ht
  rcases h.accepted t ht with hold | hnew
  · exact hnone t hold
  · omega

theorem SameTables.later (h : SameTables e e') : Later e e' := by
  refine ⟨h.nextTx, ?_, ?_⟩
  · exact fun t ht => .inl ((h.mem (by simp [DsmEvent.Silent])).mp ht)
  · exact fun id hid => (h.mem (by simp [DsmEvent.Silent])).mpr hid

theorem Later.trans {e'' : DsmEndpoint σ} (h : Later e e') (h' : Later e' e'') :
    Later e e'' := by
  refine ⟨Nat.le_trans h.nextTx h'.nextTx, ?_, fun id hid => h'.applied id (h.applied id hid)⟩
  intro t ht
  rcases h'.accepted t ht with hold | hnew
  · exact h.accepted t hold
  · exact .inr (Nat.lt_of_le_of_lt h.nextTx hnew)

theorem ledger_congr (hup : e'.upstream s d = e.upstream s d)
    (hacks : e'.acks s d = e.acks s d) (howed : e'.acksOwed d s = e.acksOwed d s)
    (hstores : e'.storeQ s d = e.storeQ s d) : e'.ledger s d = e.ledger s d := by
  unfold ledger
  rw [hup, hacks, howed, hstores]

/-- A pair of SMs that a move does not concern. -/
theorem Flow.frame (h : Flow e s d) (hlater : Later e e')
    (hup : e'.upstream s d = e.upstream s d) (hans : e'.answered s d = e.answered s d)
    (hacks : e'.acks s d = e.acks s d) (howed : e'.acksOwed d s = e.acksOwed d s)
    (hstores : e'.storeQ s d = e.storeQ s d)
    (hholds : ∀ token, e'.Holds s d token ↔ e.Holds s d token) : Flow e' s d := by
  constructor
  · rw [ledger_congr hup hacks howed hstores]
    exact h.ledger.mono hlater.applied
  · rw [hup, hans]
    exact h.tokens.mono hholds (fun _ _ => hlater.notice)

theorem holds_congr (htx : e'.tx = e.tx) (token : Token) :
    e'.Holds s d token ↔ e.Holds s d token := by
  unfold Holds
  rw [htx]

theorem SideTables.frame (h : SideTables e)
    (htx : ∀ s id t, (e.tx s).lookup id = some t →
      ∃ t', (e'.tx s).lookup id = some t' ∧ t'.cls = t.cls)
    (hans : ∀ s d id, (id, .mbarrierRequest) ∈ e.answered s d →
      (id, .mbarrierRequest) ∈ e'.answered s d)
    (hdata : ∀ id, (e'.data.lookup id).isSome → (e.data.lookup id).isSome)
    (hextra : ∀ id, (e'.extra.lookup id).isSome → (e.extra.lookup id).isSome)
    (hbare : ∀ p ∈ e'.ingress ++ e'.pending,
      p ∈ e.ingress ++ e.pending ∨ (p.cls.ofRequest = .mbarrierRequest → p.payload = [])) :
    SideTables e' := by
  constructor
  · intro id hid
    obtain ⟨s, t, ht, hcls⟩ := h.data id (hdata id hid)
    obtain ⟨t', ht', hsame⟩ := htx s id t ht
    exact ⟨s, t', ht', by rwa [hsame]⟩
  · intro id hid
    rcases h.extra id (hextra id hid) with ⟨s, t, ht⟩ | ⟨s, d, hmem⟩
    · obtain ⟨t', ht', -⟩ := htx s id t ht
      exact .inl ⟨s, t', ht'⟩
    · exact .inr ⟨s, d, hans s d id hmem⟩
  · intro p hp hcls
    rcases hbare p hp with hold | hnew
    · exact h.bare p hold hcls
    · exact hnew hcls

/-- A move that concerns no transaction. -/
theorem Accounts.quiet (h : Accounts e) (htraffic : SameTraffic e e')
    (htables : SameTables e e') (howed : e'.acksOwed = e.acksOwed)
    (hdata : e'.data = e.data)
    (hextra : ∀ id, (e'.extra.lookup id).isSome → (e.extra.lookup id).isSome)
    (hbare : ∀ p ∈ e'.ingress ++ e'.pending,
      p ∈ e.ingress ++ e.pending ∨ (p.cls.ofRequest = .mbarrierRequest → p.payload = [])) :
    Accounts e' := by
  refine ⟨h.tables.same htables, ?_, ?_⟩
  · intro s d
    refine (h.flow s d).frame htables.later ?_ ?_ ?_ ?_ ?_ (holds_congr htables.tx)
    · rw [htraffic.upstream]
    · rw [htraffic.answered]
    · rw [htraffic.acks]
    · rw [howed]
    · rw [htables.storeQ]
  · refine h.side.frame ?_ ?_ ?_ hextra hbare
    · intro s id t ht
      rw [htables.tx]
      exact ⟨t, ht, rfl⟩
    · intro s d id hmem
      rw [htraffic.answered]
      exact hmem
    · intro id hid
      rwa [hdata] at hid

/-! ### A request is accepted -/

/-- The ids under way were all issued. -/
theorem Flow.bound (h : Flow e s d) (htables : Tables e) :
    ∀ token ∈ e.upstream s d ++ e.answered s d, token.1 ≤ e.nextTx := by
  have hopen : ∀ token, e.Holds s d token → token.1 ≤ e.nextTx := by
    rintro token ⟨t, ht, -, -⟩
    have hid := (htables.entry s token.1 t ht).1
    have hbound := htables.bound _ (htables.live s token.1 t ht).1
    change t.id ≤ e.nextTx at hbound
    omega
  intro token htoken
  rcases List.mem_append.mp htoken with htoken | htoken
  · exact hopen token (h.tokens.asked token htoken)
  · rcases (h.tokens.replied token htoken).1 with hhold | hnotice
    · exact hopen token hhold
    · exact hnotice.2.1

theorem accept_holds (h : Tables e) (r : IssueReq) (fab : DsmFabric) :
    (e.accept r fab).Holds s d token ↔
      e.Holds s d token ∨ (s = r.src ∧ d = r.dst) ∧ token = (e.nextTx + 1, r.cls) := by
  obtain ⟨id, c⟩ := token
  unfold Holds
  rw [accept_lookup]
  constructor
  · rintro ⟨t, ht, htarget, hcls⟩
    split at ht
    · rename_i hnew
      obtain rfl := Option.some.inj ht
      exact .inr ⟨⟨hnew.1, htarget.symm⟩, Prod.ext hnew.2 hcls.symm⟩
    · exact .inl ⟨t, ht, htarget, hcls⟩
  · rintro (⟨t, ht, hrest⟩ | ⟨⟨rfl, rfl⟩, htoken⟩)
    · refine ⟨t, ?_, hrest⟩
      rw [if_neg, ht]
      rintro ⟨rfl, hid⟩
      have hfresh := h.fresh r.src
      rw [← hid, ht] at hfresh
      cases hfresh
    · obtain ⟨rfl, rfl⟩ := Prod.mk.inj htoken
      exact ⟨e.transaction r, if_pos ⟨rfl, rfl⟩, rfl, rfl⟩

theorem accept_later (r : IssueReq) (fab : DsmFabric) : Later e (e.accept r fab) := by
  have hmem : ∀ event, event ∈ (e.accept r fab).history ↔
      event ∈ e.history ∨ event = .accepted (e.transaction r) := by
    intro event
    change event ∈ e.history ++ [DsmEvent.accepted (e.transaction r)] ↔ _
    rw [List.mem_append, List.mem_singleton]
  refine ⟨Nat.le_succ _, ?_, ?_⟩
  · intro t ht
    rcases (hmem _).mp ht with hold | hnew
    · exact .inl hold
    · rw [DsmEvent.accepted.inj hnew]
      exact .inr (Nat.lt_succ_self _)
  · exact fun id hid => (hmem _).mpr (.inl hid)

/-- `m_extra[m_last_txid] = e` changes only the side tables. -/
theorem withExtra_tables (x : Option Extra) : SameTables e (e.withExtra x) := by
  cases x with
  | none => exact ⟨rfl, rfl, Nat.le_refl _, rfl, rfl, [], (List.append_nil _).symm, List.forall_mem_nil _⟩
  | some x => exact ⟨rfl, rfl, Nat.le_refl _, rfl, rfl, [], (List.append_nil _).symm, List.forall_mem_nil _⟩

/-- The stores under way after a request was accepted. -/
theorem accept_travelling {l ahead after : List Token} {r : IssueReq}
    (hsplit : l = ahead ++ after) (hafter : r.cls ≠ .readCommand → after = []) :
    ((ahead ++ (id, r.cls) :: after).filter (fun token => token.2.isStore)).map Prod.fst =
      (l.filter (fun token => token.2.isStore)).map Prod.fst ++
        if r.cls.isStore then [id] else [] := by
  by_cases hstore : r.cls.isStore = true
  · have hnone : after = [] := by
      apply hafter
      rintro hread
      rw [hread] at hstore
      cases hstore
    subst hnone
    simp [hsplit, hstore]
  · simp [hsplit, hstore]

theorem withExtra_queues (x : Option Extra) :
    (e.withExtra x).ingress = e.ingress ∧ (e.withExtra x).pending = e.pending := by
  cases x with
  | none => exact ⟨rfl, rfl⟩
  | some x => exact ⟨rfl, rfl⟩

/-- A request enters its data under its own id, and an mbarrier request has none. -/
theorem accept_data {r : IssueReq} {fab : DsmFabric}
    (hmbar : r.cls = .mbarrierRequest → r.bytes = 0) (x : Option Extra)
    (hother : ¬ (id = e.nextTx + 1 ∧ r.cls ≠ .mbarrierRequest))
    (hid : (((e.accept r fab).withExtra x).data.lookup id).isSome) :
    (e.data.lookup id).isSome := by
  have hdata : ((e.accept r fab).withExtra x).data =
      if (IssueReq.copied r).isEmpty then e.data
      else e.data.insert (e.nextTx + 1) (IssueReq.copied r) := by
    cases x with
    | none => rfl
    | some x => rfl
  rw [hdata] at hid
  split at hid
  · exact hid
  · rename_i hcopied
    rw [Table.lookup_insert] at hid
    split at hid
    · rename_i hsame
      refine absurd ⟨hsame, fun hcls => hcopied ?_⟩ hother
      unfold IssueReq.copied
      rw [hmbar hcls]
      split
      · rfl
      · rfl
    · exact hid

theorem accept_extra {r : IssueReq} {fab : DsmFabric} (x : Option Extra)
    (hother : id ≠ e.nextTx + 1)
    (hid : (((e.accept r fab).withExtra x).extra.lookup id).isSome) :
    (e.extra.lookup id).isSome := by
  cases x with
  | none => exact hid
  | some x =>
    change ((e.extra.insert (e.nextTx + 1) x).lookup id).isSome at hid
    rwa [Table.lookup_insert, if_neg hother] at hid

theorem Accounts.accept (h : Accounts e) {r : IssueReq} (x : Option Extra)
    (hvc : dsmVcOf r.cls = .request) (hmbar : r.cls = .mbarrierRequest → r.bytes = 0)
    (hsend : e.canSend r.cls r.src r.dst r.bytes = true) :
    Accounts ((e.accept r (e.fab.injected (e.requestPacket r))).withExtra x) := by
  obtain ⟨hsrc, hdst, hroom⟩ := canSend_spec hvc hsend
  obtain ⟨ahead, after, hsplit, hafter, hup, hans, hacks⟩ := accept_traffic (e := e) x hvc
  have hextra := withExtra_tables (e := e.accept r (e.fab.injected (e.requestPacket r))) x
  have hlater := (accept_later (e := e) r (e.fab.injected (e.requestPacket r))).trans
    hextra.later
  have hholds : ∀ s d token,
      ((e.accept r (e.fab.injected (e.requestPacket r))).withExtra x).Holds s d token ↔
        e.Holds s d token ∨ (s = r.src ∧ d = r.dst) ∧ token = (e.nextTx + 1, r.cls) := by
    intro s d token
    rw [holds_congr hextra.tx, accept_holds h.tables]
  have hstores : ((e.accept r (e.fab.injected (e.requestPacket r))).withExtra x).storeQ =
      if r.cls.isStore then
        update₂ e.storeQ r.src r.dst (e.storeQ r.src r.dst ++ [e.nextTx + 1])
      else e.storeQ := hextra.storeQ
  have howed : ((e.accept r (e.fab.injected (e.requestPacket r))).withExtra x).acksOwed =
      e.acksOwed := by
    cases x with
    | none => rfl
    | some x => rfl
  have htables : Tables (e.accept r (e.fab.injected (e.requestPacket r))) :=
    h.tables.accept hvc rfl hsrc hdst hroom
  refine ⟨htables.same hextra, ?_, ?_⟩
  · intro s d
    by_cases hpair : s = r.src ∧ d = r.dst
    · obtain ⟨rfl, rfl⟩ := hpair
      have hflow := h.flow r.src r.dst
      constructor
      · have hledger : ((e.accept r (e.fab.injected (e.requestPacket r))).withExtra x).ledger
            r.src r.dst =
              ⟨e.storeQ r.src r.dst ++ (if r.cls.isStore then [e.nextTx + 1] else []),
                (e.ledger r.src r.dst).travelling ++
                  (if r.cls.isStore then [e.nextTx + 1] else []),
                e.acksOwed r.dst r.src, e.acks r.src r.dst⟩ := by
          unfold ledger
          rw [hup, hacks, howed, hstores, update₂_self, accept_travelling hsplit hafter]
          split
          · rw [update₂_self]
          · simp only [List.append_nil]
        have hbalanced := hflow.ledger.mono hlater.applied
        rw [hledger]
        split
        · exact hbalanced.issue (e.nextTx + 1)
        · rw [List.append_nil, List.append_nil]
          exact hbalanced
      · rw [hup, hans, update₂_self]
        have htokens := hflow.tokens
        rw [hsplit] at htokens
        refine htokens.issue ?_ ?_ (fun _ _ => hlater.notice)
        · intro other hother
          rw [← hsplit] at hother
          have hbound := hflow.bound h.tables other hother
          change other.1 ≠ e.nextTx + 1
          omega
        · intro other
          rw [hholds]
          simp
    · refine (h.flow s d).frame hlater ?_ ?_ ?_ ?_ ?_ ?_
      · rw [hup, update₂_other _ _ hpair]
      · rw [hans]
      · rw [hacks]
      · rw [howed]
      · rw [hstores]
        split
        · rw [update₂_other _ _ hpair]
        · rfl
      · intro token
        rw [hholds]
        exact or_iff_left (fun hc => hpair hc.1)
  · -- the new keys are the id of the new transaction
    have hnew : (((e.accept r (e.fab.injected (e.requestPacket r))).withExtra x).tx
        r.src).lookup (e.nextTx + 1) = some (e.transaction r) := by
      rw [hextra.tx, accept_lookup, if_pos ⟨rfl, rfl⟩]
    have hopen : ∀ s id t, (e.tx s).lookup id = some t →
        (((e.accept r (e.fab.injected (e.requestPacket r))).withExtra x).tx s).lookup id =
          some t := by
      intro s id t ht
      rw [hextra.tx, accept_lookup, if_neg, ht]
      rintro ⟨rfl, rfl⟩
      rw [h.tables.fresh] at ht
      cases ht
    constructor
    · intro id hid
      by_cases hsame : id = e.nextTx + 1 ∧ r.cls ≠ .mbarrierRequest
      · obtain ⟨rfl, hcls⟩ := hsame
        exact ⟨r.src, e.transaction r, hnew, hcls⟩
      · obtain ⟨s, t, ht, hcls⟩ := h.side.data id (accept_data hmbar x hsame hid)
        exact ⟨s, t, hopen s id t ht, hcls⟩
    · intro id hid
      by_cases hsame : id = e.nextTx + 1
      · subst hsame
        exact .inl ⟨r.src, _, hnew⟩
      · rcases h.side.extra id (accept_extra x hsame hid) with ⟨s, t, ht⟩ | ⟨s, d, hmem⟩
        · exact .inl ⟨s, t, hopen s id t ht⟩
        · refine .inr ⟨s, d, ?_⟩
          rw [hans]
          exact hmem
    · have hqueues := withExtra_queues (e := e.accept r (e.fab.injected (e.requestPacket r))) x
      intro p hp
      rw [hqueues.1, hqueues.2] at hp
      exact h.side.bare p hp

/-! ### Messages and responses -/

theorem Answers.not_store {c : DsmPacketClass} (h : Answers c) : c.ofRequest.isStore = false := by
  obtain ⟨hvc, hack⟩ := h
  cases c <;> simp_all [dsmVcOf, DsmPacketClass.ofRequest, DsmPacketClass.isStore]

/-- A `WAIT_DONE` message gets an id of its own and no transaction. -/
theorem Accounts.notice (h : Accounts e) (m : IssueMbar) :
    Accounts { e.noticed m with pending := e.pending ++ [e.waitDone m] } := by
  have hfab : ∀ k, ({ e.noticed m with
      pending := e.pending ++ [e.waitDone m] } : DsmEndpoint σ).fab.lane k = e.fab.lane k :=
    fun k => rfl
  have hup := upstream_congr hfab (fun s d => rfl)
  have hacks := acks_congr hfab
  obtain ⟨l, hperm, hans⟩ := append_traffic e
    { e.noticed m with pending := e.pending ++ [e.waitDone m] } (e.waitDone m) rfl rfl
  have htables : SameTables e { e.noticed m with pending := e.pending ++ [e.waitDone m] } :=
    ⟨rfl, rfl, Nat.le_succ _, rfl, rfl, [], (List.append_nil _).symm, List.forall_mem_nil _⟩
  refine ⟨h.tables.same htables, ?_, ?_⟩
  · intro s d
    have hflow := h.flow s d
    by_cases hpair : s = (e.waitDone m).dst ∧ d = (e.waitDone m).src
    · obtain ⟨rfl, rfl⟩ := hpair
      constructor
      · rw [ledger_congr (congrFun (congrFun hup _) _) (congrFun (congrFun hacks _) _) rfl rfl]
        exact hflow.ledger
      · rw [hup, hans, update₂_self]
        refine hflow.tokens.notice ?_ (fun _ => htables.later.notice) ⟨rfl, Nat.le_refl _, ?_⟩
          rfl hperm
        · intro other hother
          have hbound := hflow.bound h.tables other hother
          change other.1 ≠ e.nextTx + 1
          omega
        · intro t ht
          have hbound := h.tables.bound t ht
          change t.id ≠ e.nextTx + 1
          omega
    · refine hflow.frame htables.later ?_ ?_ ?_ rfl rfl (holds_congr rfl)
      · rw [hup]
      · rw [hans, update₂_other _ _ hpair]
      · rw [hacks]
  · have hmono : ∀ s d token, token ∈ e.answered s d →
        token ∈ ({ e.noticed m with
          pending := e.pending ++ [e.waitDone m] } : DsmEndpoint σ).answered s d := by
      intro s d token htoken
      rw [hans, update₂_apply]
      split
      · rename_i hpair
        obtain ⟨rfl, rfl⟩ := hpair
        exact hperm.mem_iff.mpr (List.mem_cons_of_mem _ htoken)
      · exact htoken
    constructor
    · exact h.side.data
    · intro id hid
      change ((e.extra.insert (e.nextTx + 1) (IssueMbar.extra m)).lookup id).isSome at hid
      rw [Table.lookup_insert] at hid
      split at hid
      · rename_i hsame
        subst hsame
        refine .inr ⟨(e.waitDone m).dst, (e.waitDone m).src, ?_⟩
        rw [hans, update₂_self]
        exact hperm.mem_iff.mpr List.mem_cons_self
      · rcases h.side.extra id hid with hopen | ⟨s, d, hmem⟩
        · exact .inl hopen
        · exact .inr ⟨s, d, hmono s d _ hmem⟩
    · intro p hp hcls
      rcases List.mem_append.mp hp with hp | hp
      · exact h.side.bare p (List.mem_append_left _ hp) hcls
      · rcases List.mem_append.mp hp with hp | hp
        · exact h.side.bare p (List.mem_append_right _ hp) hcls
        · rw [List.mem_singleton.mp hp]
          rfl

/-- A response with data belongs to an open transaction. -/
theorem Accounts.payload_holds (h : Accounts e) (hp : p ∈ e.pending)
    (hpayload : p.payload ≠ []) :
    ∃ t, (e.tx p.dst).lookup p.txid = some t ∧ t.cls ≠ .mbarrierRequest := by
  have hcls : p.cls.ofRequest ≠ .mbarrierRequest := fun hc =>
    hpayload (h.side.bare p (List.mem_append_right _ hp) hc)
  have hmem : p.token ∈ e.answered p.dst p.src := by
    apply List.mem_append_left
    apply List.mem_map_of_mem
    exact List.mem_filter.mpr ⟨hp, by simp⟩
  rcases ((h.flow p.dst p.src).tokens.replied p.token hmem).1 with ⟨t, ht, -, hsame⟩ | hnotice
  · exact ⟨t, ht, by rwa [hsame]⟩
  · exact absurd hnotice.1 hcls

theorem Accounts.send (h : Accounts e) (hpending : e.pending = before ++ p :: behind)
    (hp : Answers p.cls) :
    Accounts { e.respond p (e.fab.injected (e.responsePacket p)) with
      pending := before ++ behind } := by
  obtain ⟨l, hperm, hans, hup, hacks⟩ := send_traffic (e := e) hpending hp
  have htables : SameTables e { e.respond p (e.fab.injected (e.responsePacket p)) with
      pending := before ++ behind } :=
    ⟨rfl, rfl, Nat.le_refl _, rfl, rfl, [], (List.append_nil _).symm, List.forall_mem_nil _⟩
  have hmem : p ∈ e.pending := by
    rw [hpending]
    exact List.mem_append_right _ List.mem_cons_self
  refine ⟨h.tables.same htables, ?_, ?_⟩
  · intro s d
    have hflow := h.flow s d
    by_cases hpair : s = p.dst ∧ d = p.src
    · obtain ⟨rfl, rfl⟩ := hpair
      constructor
      · rw [ledger_congr (congrFun (congrFun hup _) _) (congrFun (congrFun hacks _) _) rfl rfl]
        exact hflow.ledger
      · rw [hup, hans, update₂_self]
        exact (hflow.tokens.perm hperm).mono (holds_congr rfl) (fun _ _ => htables.later.notice)
    · refine hflow.frame htables.later ?_ ?_ ?_ rfl rfl (holds_congr rfl)
      · rw [hup]
      · rw [hans, update₂_other _ _ hpair]
      · rw [hacks]
  · constructor
    · intro id hid
      change ((if p.payload.isEmpty then e.data
        else e.data.insert p.txid p.payload).lookup id).isSome at hid
      split at hid
      · exact h.side.data id hid
      · rename_i hpayload
        rw [Table.lookup_insert] at hid
        split at hid
        · rename_i hsame
          subst hsame
          obtain ⟨t, ht, hcls⟩ := h.payload_holds hmem (by simpa using hpayload)
          exact ⟨p.dst, t, ht, hcls⟩
        · exact h.side.data id hid
    · intro id hid
      rcases h.side.extra id hid with hopen | ⟨s, d, hans'⟩
      · exact .inl hopen
      · refine .inr ⟨s, d, ?_⟩
        rw [hans, update₂_apply]
        split
        · rename_i hpair
          obtain ⟨rfl, rfl⟩ := hpair
          exact hperm.mem_iff.mpr hans'
        · exact hans'
    · intro q hq
      apply h.side.bare q
      rw [hpending]
      rcases List.mem_append.mp hq with hq | hq
      · exact List.mem_append_left _ hq
      · apply List.mem_append_right
        rcases List.mem_append.mp hq with hq | hq
        · exact List.mem_append_left _ hq
        · exact List.mem_append_right _ (List.mem_cons_of_mem _ hq)

/-- A served request becomes a response. -/
theorem Accounts.ready (h : Accounts e) (hingress : e.ingress = before ++ p :: behind)
    (hp : Answers p.cls) :
    Accounts { e with ingress := before ++ behind, pending := e.pending ++ [p] } := by
  obtain ⟨after, hsplit, hup, hacks⟩ := drop_traffic
    { e with ingress := before ++ behind, pending := e.pending ++ [p] } hingress rfl rfl
  obtain ⟨l, hperm, hans⟩ := append_traffic e
    { e with ingress := before ++ behind, pending := e.pending ++ [p] } p rfl rfl
  have htables : SameTables e
      { e with ingress := before ++ behind, pending := e.pending ++ [p] } :=
    ⟨rfl, rfl, Nat.le_refl _, rfl, rfl, [], (List.append_nil _).symm, List.forall_mem_nil _⟩
  have hcounted : DsmPacketClass.isStore p.token.2 = false := hp.not_store
  refine ⟨h.tables.same htables, ?_, ?_⟩
  · intro s d
    have hflow := h.flow s d
    by_cases hpair : s = p.dst ∧ d = p.src
    · obtain ⟨rfl, rfl⟩ := hpair
      constructor
      · have hledger : ({ e with ingress := before ++ behind, pending := e.pending ++ [p] } :
            DsmEndpoint σ).ledger p.dst p.src = e.ledger p.dst p.src := by
          unfold ledger
          rw [hup, hacks, update₂_self, hsplit]
          simp [hcounted]
        rw [hledger]
        exact hflow.ledger
      · have htokens := hflow.tokens
        rw [hsplit] at htokens
        rw [hup, hans, update₂_self, update₂_self]
        exact (htokens.answer hcounted hperm).mono (holds_congr rfl)
          (fun _ _ => htables.later.notice)
    · refine hflow.frame htables.later ?_ ?_ ?_ rfl rfl (holds_congr rfl)
      · rw [hup, update₂_other _ _ hpair]
      · rw [hans, update₂_other _ _ hpair]
      · rw [hacks]
  · refine h.side.frame (fun s id t ht => ⟨t, ht, rfl⟩) ?_ (fun _ hid => hid)
      (fun _ hid => hid) ?_
    · intro s d id hmem
      rw [hans, update₂_apply]
      split
      · rename_i hpair
        obtain ⟨rfl, rfl⟩ := hpair
        exact hperm.mem_iff.mpr (List.mem_cons_of_mem _ hmem)
      · exact hmem
    · intro q hq
      left
      rw [hingress]
      simp only [List.mem_append, List.mem_cons, List.not_mem_nil, or_false] at hq ⊢
      rcases hq with (hq | hq) | hq | rfl
      · exact .inl (.inl hq)
      · exact .inl (.inr (.inr hq))
      · exact .inr hq
      · exact .inl (.inr (.inl rfl))

/-- What one SM owes another becomes one acknowledgement. -/
theorem Accounts.flush (h : Accounts e) {sm req : Nat} (howed : 0 < e.acksOwed sm req) :
    Accounts { e.respond (e.ackEntry sm req)
        (e.fab.injected (e.responsePacket (e.ackEntry sm req))) with
      acksOwed := update₂ e.acksOwed sm req 0
      oldestAck := update₂ e.oldestAck sm req 0 } := by
  obtain ⟨l, hperm, hacks, hup, hans⟩ := flush_traffic
    { e.respond (e.ackEntry sm req)
        (e.fab.injected (e.responsePacket (e.ackEntry sm req))) with
      acksOwed := update₂ e.acksOwed sm req 0
      oldestAck := update₂ e.oldestAck sm req 0 } howed _ rfl ⟨rfl, rfl, rfl⟩
  have htables : SameTables e { e.respond (e.ackEntry sm req)
        (e.fab.injected (e.responsePacket (e.ackEntry sm req))) with
      acksOwed := update₂ e.acksOwed sm req 0
      oldestAck := update₂ e.oldestAck sm req 0 } :=
    ⟨rfl, rfl, Nat.le_refl _, rfl, rfl, [], (List.append_nil _).symm, List.forall_mem_nil _⟩
  refine ⟨h.tables.same htables, ?_, ?_⟩
  · intro s d
    have hflow := h.flow s d
    by_cases hpair : s = req ∧ d = sm
    · obtain ⟨rfl, rfl⟩ := hpair
      constructor
      · unfold ledger
        rw [hup, hacks, update₂_self]
        change AckLedger.Balanced _ ⟨_, _, update₂ e.acksOwed d s 0 d s, _⟩
        rw [update₂_self]
        exact hflow.ledger.flush hperm
      · rw [hup, hans]
        exact hflow.tokens.mono (holds_congr rfl) (fun _ _ => htables.later.notice)
    · refine hflow.frame htables.later ?_ ?_ ?_ ?_ rfl (holds_congr rfl)
      · rw [hup]
      · rw [hans]
      · rw [hacks, update₂_other _ _ hpair]
      · exact update₂_other _ _ (fun hc => hpair ⟨hc.2, hc.1⟩)
  · refine h.side.frame (fun s id t ht => ⟨t, ht, rfl⟩) ?_ (fun _ hid => hid)
      (fun _ hid => hid) (fun _ hq => .inl hq)
    intro s d id hmem
    rw [hans]
    exact hmem

end DsmEndpoint

end FlashGpuSim
