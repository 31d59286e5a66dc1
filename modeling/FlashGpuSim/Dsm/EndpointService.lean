import FlashGpuSim.Dsm.EndpointArrivals

/-!
`process_ingress` as moves. Between two entries the queue is what the loop has kept and
what it has not seen yet. The SRAM bytes of an SM are granted greedily, which is why no
store overtakes another one there.
-/

namespace FlashGpuSim

open Lib Relation

namespace DsmEndpoint

variable {σ : Type} {host : DsmHost σ} {guard : DsmGuard σ} {e e' : DsmEndpoint σ}
  {p : Pending}

/-! ### `process_ingress` -/

/-- The endpoint with another `m_ingress`. -/
def withIngress (e : DsmEndpoint σ) (ingress : List Pending) : DsmEndpoint σ :=
  { e with ingress := ingress }

section WithIngress

variable (host e p) (l l' : List Pending)

@[simp] theorem withIngress_withIngress :
    (e.withIngress l).withIngress l' = e.withIngress l' := rfl

@[simp] theorem withIngress_ingress : (e.withIngress l).ingress = l := rfl

@[simp] theorem genOk_withIngress : (e.withIngress l).genOk p = e.genOk p := rfl

@[simp] theorem sramWrite_withIngress (bytes : List UInt8) :
    sramWrite host (e.withIngress l) p bytes = (sramWrite host e p bytes).withIngress l := by
  unfold sramWrite
  split
  · rfl
  · rfl

@[simp] theorem accrueAck_withIngress (target requester : Nat) :
    (e.withIngress l).accrueAck target requester =
      (e.accrueAck target requester).withIngress l := by
  unfold accrueAck
  change (if target < e.n ∧ requester < e.n then _ else _) = _
  split
  · rfl
  · rfl

@[simp] theorem markApplied_withIngress (requester txid : Nat) :
    (e.withIngress l).markApplied requester txid =
      (e.markApplied requester txid).withIngress l := by
  have htx : (e.withIngress l).tx = e.tx := rfl
  have hn : (e.withIngress l).n = e.n := rfl
  unfold markApplied
  rw [htx, hn]
  cases (e.tx requester).lookup txid with
  | none => rfl
  | some t =>
    by_cases hr : requester < e.n
    · simp only [if_pos hr]
      rfl
    · simp only [if_neg hr]

@[simp] theorem applyStore_withIngress :
    applyStore host (e.withIngress l) p = (applyStore host e p).withIngress l := by
  have hdata : (e.withIngress l).data = e.data := rfl
  unfold applyStore
  simp only [genOk_withIngress, hdata]
  split
  · simp
  · simp

@[simp] theorem sramRead_withIngress :
    sramRead host (e.withIngress l) p =
      ((sramRead host e p).1, (sramRead host e p).2.withIngress l) := by
  unfold sramRead
  cases host.sramRead with
  | none => rfl
  | some fn =>
    change (if (e.genOk p && p.bytes != 0) = true then _ else _) = _
    by_cases hok : (e.genOk p && p.bytes != 0) = true
    · rw [if_pos hok]
      simp only [if_pos hok]
      rfl
    · rw [if_neg hok]
      simp only [if_neg hok]

@[simp] theorem applyAtomic_withIngress :
    applyAtomic host (e.withIngress l) p =
      ((applyAtomic host e p).1.withIngress l, (applyAtomic host e p).2) := by
  have hdata : (e.withIngress l).data = e.data := rfl
  unfold applyAtomic
  simp only [sramRead_withIngress, genOk_withIngress, hdata]
  split
  · simp
  · rfl

@[simp] theorem applySram_withIngress :
    applySram host (e.withIngress l) p =
      ((applySram host e p).1.withIngress l, (applySram host e p).2) := by
  unfold applySram
  split
  · simp
  · simp
  · simp
  · simp
  · rfl

@[simp] theorem notifyTmaMbar_withIngress :
    notifyTmaMbar host (e.withIngress l) p = (notifyTmaMbar host e p).withIngress l := by
  unfold notifyTmaMbar
  cases host.onTmaMbar with
  | none => rfl
  | some fn =>
    change (if p.cls = .tmaData ∧ (p.mbarAddr ≠ 0 ∨ p.mbarBytes ≠ 0) ∧ e.genOk p = true then _
      else _) = _
    by_cases hok : p.cls = .tmaData ∧ (p.mbarAddr ≠ 0 ∨ p.mbarBytes ≠ 0) ∧ e.genOk p = true
    · rw [if_pos hok]
      simp only [if_pos hok]
      rfl
    · rw [if_neg hok]
      simp only [if_neg hok]

@[simp] theorem completeLoad_withIngress (requester txid : Nat) :
    completeLoad host (e.withIngress l) requester txid =
      (completeLoad host e requester txid).withIngress l := rfl

@[simp] theorem satisfyWait_withIngress :
    (e.withIngress l).satisfyWait p =
      ((e.satisfyWait p).1.withIngress l, (e.satisfyWait p).2) := by
  unfold satisfyWait
  split
  · rfl
  · rfl

theorem issueReq_withIngress (r : IssueReq) :
    (e.withIngress l).issueReq r =
      (fun x => (x.1, x.2.withIngress l)) <$> e.issueReq r := by
  have hcan : (e.withIngress l).canIssue r = e.canIssue r := rfl
  unfold issueReq
  rw [hcan]
  split
  · change (e.fab.inject (e.requestPacket r) >>= _) = _
    cases e.fab.inject (e.requestPacket r) with
    | ok fab => rfl
    | error err => rfl
  · rfl

theorem injectResponse_withIngress :
    (e.withIngress l).injectResponse p =
      (fun x => (x.1, x.2.withIngress l)) <$> e.injectResponse p := by
  unfold injectResponse
  change (if e.fab.canInject p.src (dsmVcOf p.cls) p.dst (e.flitsOf p.cls p.bytes) = true then _
    else _) = _
  split
  · change (e.fab.inject (e.responsePacket p) >>= _) = _
    cases e.fab.inject (e.responsePacket p) with
    | ok fab => rfl
    | error err => rfl
  · rfl

theorem issueMbar_withIngress (m : IssueMbar) :
    (e.withIngress l).issueMbar m =
      (fun x => (x.1, x.2.withIngress l)) <$> e.issueMbar m := by
  have hnoticed : (e.withIngress l).noticed m = (e.noticed m).withIngress l := rfl
  have hmessage : (e.withIngress l).waitDone m = e.waitDone m := rfl
  unfold issueMbar
  split
  · simp only [hnoticed, hmessage, injectResponse_withIngress]
    cases (e.noticed m).injectResponse (e.waitDone m) with
    | ok x =>
      obtain ⟨sent, g⟩ := x
      cases sent with
      | true => rfl
      | false => rfl
    | error err => rfl
  · rw [issueReq_withIngress]
    cases e.issueReq _ with
    | ok x =>
      obtain ⟨ok, g⟩ := x
      cases ok with
      | true => rfl
      | false => rfl
    | error err => rfl

theorem issueMbars_withIngress (calls : List IssueMbar) :
    (e.withIngress l).issueMbars calls =
      (fun g : DsmEndpoint σ => g.withIngress l) <$> e.issueMbars calls := by
  refine foldlM_map_state (g := fun g : DsmEndpoint σ => g.withIngress l) ?_ calls e
  intro g m
  rw [issueMbar_withIngress]
  cases g.issueMbar m with
  | ok x => rfl
  | error err => rfl

end WithIngress

/-! ### One entry of `m_ingress` -/

/-- The loop of `process_ingress` between two entries. The stores it has kept arrived
just now, or their SM has no bytes left to give. -/
structure Serving (host : DsmHost σ) (guard : DsmGuard σ) (e₀ : DsmEndpoint σ)
    (rest : List Pending) (state : DsmEndpoint σ × List Pending) : Prop where
  moves : Moves host guard e₀ (state.1.withIngress (state.2 ++ rest))
  now : state.1.now = e₀.now
  ctaGens : state.1.ctaGens = e₀.ctaGens
  starved : ∀ q ∈ state.2, q.cls.isStore = true → e₀.now ≤ q.arriveCycle ∨
    ∃ service, state.1.smem = some service ∧ (service q.src).granted kSmemDsm = 0

variable {e₀ : DsmEndpoint σ} {keep rest : List Pending}

/-- An entry is kept as it is. -/
theorem Serving.kept (h : Serving host guard e₀ (p :: rest) (e, keep))
    (hp : p.cls.isStore = true → e₀.now ≤ p.arriveCycle ∨
      ∃ service, e.smem = some service ∧ (service p.src).granted kSmemDsm = 0) :
    Serving host guard e₀ rest (e, keep ++ [p]) := by
  refine ⟨?_, h.now, h.ctaGens, ?_⟩
  · have hmoves := h.moves
    simp only [List.append_assoc, List.singleton_append] at hmoves ⊢
    exact hmoves
  · intro q hq
    rcases List.mem_append.mp hq with hq | hq
    · exact h.starved q hq
    · rw [List.mem_singleton.mp hq]
      exact hp

theorem Serving.base (h : Serving host guard e₀ rest (e, keep)) (hbase : Base e₀) :
    Base (e.withIngress (keep ++ rest)) :=
  h.moves.base hbase

/-- A move of the whole endpoint that leaves clock, generations and services alone. -/
theorem Serving.step {rest' : List Pending} (h : Serving host guard e₀ rest (e, keep))
    (hmoves : Moves host guard (e.withIngress (keep ++ rest)) (e'.withIngress (keep ++ rest')))
    (hnow : e'.now = e.now) (hgens : e'.ctaGens = e.ctaGens) (hsmem : e'.smem = e.smem) :
    Serving host guard e₀ rest' (e', keep) := by
  refine ⟨h.moves.trans hmoves, hnow.trans h.now, hgens.trans h.ctaGens, ?_⟩
  intro q hq hstore
  change _ ∨ ∃ service, e'.smem = some service ∧ _
  rw [hsmem]
  exact h.starved q hq hstore

/-- The entry that is served is in form. -/
theorem Serving.first (h : Serving host guard e₀ (p :: rest) (e, keep)) (hbase : Base e₀) :
    EntryOk p := by
  apply (h.base hbase).entries
  exact List.mem_append_right _ List.mem_cons_self

/-- The end of the loop body, for an entry that is served. -/
theorem Serving.retain (h : Serving host guard e₀ (p :: rest) (e, keep)) (hbase : Base e₀)
    (hdone : p.sramDone = true) : Serving host guard e₀ rest (e.retain keep p) := by
  have hentry : EntryOk p := h.first hbase
  unfold DsmEndpoint.retain
  split
  · apply h.kept
    intro hstore
    have hvc := (hentry.answer hdone).1
    cases hcls : p.cls <;> simp_all [DsmPacketClass.isStore, dsmVcOf]
  · refine h.step (.single ?_) rfl rfl rfl
    exact Move.ready (e := e.withIngress (keep ++ p :: rest)) rfl hdone

theorem applySram_store (hstore : p.cls.isStore = true) :
    applySram host e p = (applyStore host e p, p) := by
  unfold applySram
  cases hcls : p.cls <;> simp_all [DsmPacketClass.isStore]

theorem notifyTmaMbar_other (host : DsmHost σ) (hcls : p.cls ≠ .tmaData) :
    notifyTmaMbar host e p = e := by
  unfold notifyTmaMbar
  split
  · rw [if_neg]
    exact fun hc => hcls hc.1
  · rfl

theorem Access.same (h : Access e e') :
    e'.now = e.now ∧ e'.ctaGens = e.ctaGens ∧ e'.smem = e.smem := by
  obtain ⟨_, _, rfl, -⟩ := h
  exact ⟨rfl, rfl, rfl⟩

theorem Applied.same (h : Applied e e') :
    e'.now = e.now ∧ e'.ctaGens = e.ctaGens ∧ e'.smem = e.smem := by
  obtain ⟨_, _, _, _, _, _, rfl⟩ := h
  exact ⟨rfl, rfl, rfl⟩

/-- A store is applied. -/
theorem serveStore_serving (h : Serving host guard e₀ (p :: rest) (e, keep))
    (hdone : p.sramDone = false) (hstore : p.cls.isStore = true)
    (hfirst : ∀ q ∈ keep, q.src = p.src → q.cls.isStore = false) (got : Nat) :
    Serving host guard e₀ rest
      (notifyTmaMbar host (applyStore host e { p with sramGot := got })
        { p with sramGot := got }, keep) := by
  have happlied := (applyStore_applied host e { p with sramGot := got }).trans
    (notifyTmaMbar_access host _ { p with sramGot := got }).applied
  obtain ⟨hnow, hgens, hsmem⟩ := happlied.same
  refine h.step (.single ?_) hnow hgens hsmem
  have hmove : Move host guard (e.withIngress (keep ++ p :: rest)) _ :=
    Move.store got rfl hdone hstore hfirst
  simp only [applyStore_withIngress, notifyTmaMbar_withIngress] at hmove
  exact hmove

/-- A load or an atomic is applied. -/
theorem serveReply_serving (h : Serving host guard e₀ (p :: rest) (e, keep))
    (hdone : p.sramDone = false) (hcls : p.cls = .readCommand ∨ p.cls = .atomicRequest)
    (got : Nat) :
    Serving host guard e₀
      ((applySram host e { p with sramGot := got }).2.served e.now :: rest)
      ((applySram host e { p with sramGot := got }).1, keep) := by
  have hstore : ({ p with sramGot := got } : Pending).cls.isStore = false := by
    rcases hcls with hcls | hcls
    · simp [hcls, DsmPacketClass.isStore]
    · simp [hcls, DsmPacketClass.isStore]
  obtain ⟨hnow, hgens, hsmem⟩ := (applySram_access host e hstore).same
  refine h.step (.single ?_) hnow hgens hsmem
  have hmove : Move host guard (e.withIngress (keep ++ p :: rest)) _ :=
    Move.reply got rfl hdone hcls
  simp only [applySram_withIngress] at hmove
  exact hmove

/-- The hook is called for an mbarrier request, and calls `issue_mbar` back. -/
theorem deliverMbar_serving (h : Serving host guard e₀ (p :: rest) (e, keep))
    (hbase : Base e₀) (hissue : ∀ m : IssueMbar, guard.issue m.request)
    (hdone : p.sramDone = false) (hcls : p.cls = .mbarrierRequest) (got : Nat)
    (hdeliver : guard.deliver p (e.generation p.src p.ctaSlot)) :
    Outcome (deliverMbar host e ({ p with sramGot := got }.served e.now))
      (fun result => Serving host guard e₀ (p :: rest) (result.2, keep) ∧
        result.2.now = e.now) (fun _ => False) := by
  unfold deliverMbar
  split
  · rename_i fn hhook
    -- the endpoint right after the hook changed the host
    have hcalled : Serving host guard e₀ (p :: rest)
        ({ e with
          hostState := (fn e.hostState p.hookArgs).2.2
          history := e.history ++
            [.mbarReq ({ p with sramGot := got }.served e.now)
              (e.generation p.src p.ctaSlot)] }, keep) := by
      refine h.step (.single ?_) rfl rfl rfl
      exact Move.mbarCall (e := e.withIngress (keep ++ p :: rest)) got rfl hdone hcls hdeliver hhook
    have hissued := issueMbars_moves host guard (hcalled.base hbase) hissue
      (fn e.hostState p.hookArgs).2.1
    rw [issueMbars_withIngress, outcome_map] at hissued
    apply outcome_bind
    refine hissued.imp ?_
    rintro g ⟨hmoves, hsame⟩
    exact ⟨hcalled.step hmoves hsame.now hsame.ctaGens hsame.smem, hsame.now⟩
  · exact ⟨h, rfl⟩

/-- An mbarrier request is dropped or answered. -/
theorem answerMbar_serving (h : Serving host guard e₀ (p :: rest) (e, keep)) (hbase : Base e₀)
    (hdone : p.sramDone = false) (hcls : p.cls = .mbarrierRequest) (got : Nat) (sat : Bool) :
    Serving host guard e₀ rest
      (answerMbar host e keep ({ p with sramGot := got }.served e.now) sat) := by
  unfold answerMbar
  split
  · -- nobody answers a wait that is registered
    refine h.step (.single ?_) rfl rfl rfl
    exact Move.mbarDrop (e := e.withIngress (keep ++ p :: rest)) (p := p) rfl hdone hcls
  · have hmove : Move host guard (e.withIngress (keep ++ p :: rest)) _ :=
      Move.mbarReply got rfl hdone hcls
    simp only [satisfyWait_withIngress] at hmove
    have hfields : (e.satisfyWait ({ p with sramGot := got }.served e.now)).1.now = e.now ∧
        (e.satisfyWait ({ p with sramGot := got }.served e.now)).1.ctaGens = e.ctaGens ∧
        (e.satisfyWait ({ p with sramGot := got }.served e.now)).1.smem = e.smem ∧
        (e.satisfyWait ({ p with sramGot := got }.served e.now)).2.sramDone = true := by
      unfold satisfyWait
      split
      · exact ⟨rfl, rfl, rfl, rfl⟩
      · exact ⟨rfl, rfl, rfl, rfl⟩
    obtain ⟨hnow, hgens, hsmem, hserved⟩ := hfields
    have hanswered : Serving host guard e₀
        ({ (e.satisfyWait ({ p with sramGot := got }.served e.now)).2 with
          cls := .mbarrierCompletion } :: rest)
        ((e.satisfyWait ({ p with sramGot := got }.served e.now)).1, keep) :=
      h.step (.single hmove) hnow hgens hsmem
    exact hanswered.retain hbase hserved

/-! ### The three ways of `serveEntry` -/

theorem serveEntry_store (hstore : p.cls.isStore = true) :
    serveEntry host e keep p = .ok (notifyTmaMbar host (applyStore host e p) p, keep) := by
  unfold serveEntry
  rw [applySram_store hstore]
  exact if_pos hstore

theorem serveEntry_mbar (hcls : p.cls = .mbarrierRequest) :
    serveEntry host e keep p = (do
      let (sat, g) ← deliverMbar host e (p.served e.now)
      return answerMbar host g keep (p.served e.now) sat) := by
  have happly : applySram host e p = (e, p) := by
    unfold applySram
    simp only [hcls]
  have hstore : ¬ (p.served e.now).cls.isStore = true := by
    simp [Pending.served, hcls, DsmPacketClass.isStore]
  have hmbar : (p.served e.now).cls = .mbarrierRequest := hcls
  unfold serveEntry
  simp only [happly, notifyTmaMbar_other host (e := e) (p := p) (by simp [hcls])]
  rw [if_neg hstore, if_pos hmbar]

theorem serveEntry_reply (hcls : p.cls = .readCommand ∨ p.cls = .atomicRequest) :
    serveEntry host e keep p =
      .ok ((applySram host e p).1.retain keep ((applySram host e p).2.served e.now)) := by
  obtain ⟨payload, hentry⟩ := applySram_entry host e hcls
  have hstore : p.cls.isStore = false := by
    rcases hcls with hcls | hcls
    · simp [hcls, DsmPacketClass.isStore]
    · simp [hcls, DsmPacketClass.isStore]
  have hnow := ((applySram_access host e hstore).same).1
  have hafter : (applySram host e p).2.cls ≠ .tmaData ∧
      ¬ ((applySram host e p).2.served e.now).cls.isStore = true ∧
      ((applySram host e p).2.served e.now).cls ≠ .mbarrierRequest := by
    rw [hentry]
    dsimp only [Pending.served]
    split
    · exact ⟨by decide, by decide, by decide⟩
    · exact ⟨by decide, by decide, by decide⟩
  obtain ⟨htma, hstore', hmbar⟩ := hafter
  unfold serveEntry
  simp only [notifyTmaMbar_other _ htma, hnow]
  rw [if_neg hstore', if_neg hmbar]
  rfl

/-- An entry with all its SRAM bytes. -/
theorem serveEntry_serving (h : Serving host guard e₀ (p :: rest) (e, keep)) (hbase : Base e₀)
    (hissue : ∀ m : IssueMbar, guard.issue m.request) (hdone : p.sramDone = false)
    (hfirst : p.cls.isStore = true → ∀ q ∈ keep, q.src = p.src → q.cls.isStore = false)
    (hdeliver : p.cls = .mbarrierRequest → guard.deliver p (e.generation p.src p.ctaSlot))
    (got : Nat) :
    Outcome (serveEntry host e keep { p with sramGot := got })
      (Serving host guard e₀ rest) (fun _ => False) := by
  have hvc := (h.first hbase).request hdone
  by_cases hstore : p.cls.isStore = true
  · rw [serveEntry_store (p := { p with sramGot := got }) hstore]
    exact serveStore_serving h hdone hstore (hfirst hstore) got
  · by_cases hmbar : p.cls = .mbarrierRequest
    · rw [serveEntry_mbar (p := { p with sramGot := got }) hmbar]
      apply outcome_bind
      refine (deliverMbar_serving h hbase hissue hdone hmbar got (hdeliver hmbar)).imp ?_
      rintro ⟨sat, g⟩ ⟨hserving, hnow⟩
      have hanswer := answerMbar_serving hserving hbase hdone hmbar got sat
      rw [hnow] at hanswer
      exact hanswer
    · have hreply : p.cls = .readCommand ∨ p.cls = .atomicRequest := by
        cases hcls : p.cls <;> simp_all [DsmPacketClass.isStore, dsmVcOf]
      rw [serveEntry_reply (p := { p with sramGot := got }) hreply]
      exact (serveReply_serving h hdone hreply got).retain hbase rfl

/-- What `m_sram_take` does to the services: who gets less than it asks for has used up
its grant, and nobody's grant grows. -/
theorem takeSram_spec (e : DsmEndpoint σ) (sm need : Nat) :
    ∃ smem, (e.takeSram sm need).2 = { e with smem := smem } ∧
      (∀ services, e.smem = some services → ∃ services', smem = some services' ∧
        ((e.takeSram sm need).1 < need → (services' sm).granted kSmemDsm = 0) ∧
        ∀ sm', (services sm').granted kSmemDsm = 0 →
          (services' sm').granted kSmemDsm = 0 ∧
            (sm' = sm → 0 < need → (e.takeSram sm need).1 = 0)) ∧
      (e.smem = none → (e.takeSram sm need).1 = need ∧ smem = none) := by
  unfold takeSram
  cases hsmem : e.smem with
  | none => exact ⟨e.smem, rfl, nofun, fun _ => ⟨rfl, hsmem⟩⟩
  | some services =>
    by_cases hneed : need = 0
    · simp only [hneed, if_true]
      refine ⟨e.smem, rfl, ?_, nofun⟩
      rintro services' heq
      cases heq
      exact ⟨services, hsmem, by omega, fun sm' hzero => ⟨hzero, by omega⟩⟩
    · simp only [hneed, if_false]
      refine ⟨_, rfl, ?_, nofun⟩
      rintro services' heq
      cases heq
      refine ⟨_, rfl, ?_, ?_⟩
      · intro hshort
        rw [Function.update_self]
        exact SharedMemoryService.granted_take_of_short (by decide) hshort
      · intro sm' hzero
        by_cases hsm : sm' = sm
        · subst hsm
          obtain ⟨hnone, hleft⟩ := SharedMemoryService.take_of_granted_zero need hzero
          rw [Function.update_self]
          exact ⟨hleft, fun _ _ => hnone⟩
        · rw [Function.update_of_ne hsm]
          exact ⟨hzero, fun hc => absurd hc hsm⟩

/-- Other services under which nobody's empty grant is refilled. -/
theorem Serving.withSmem (h : Serving host guard e₀ rest (e, keep))
    (smem : Option (Nat → SharedMemoryService))
    (hempty : ∀ sm services, e.smem = some services → (services sm).granted kSmemDsm = 0 →
      ∃ services', smem = some services' ∧ (services' sm).granted kSmemDsm = 0) :
    Serving host guard e₀ rest ({ e with smem := smem }, keep) := by
  refine ⟨h.moves.tail ?_, h.now, h.ctaGens, ?_⟩
  · exact Move.smem (e := e.withIngress (keep ++ rest)) smem
  · intro q hq hstore
    rcases h.starved q hq hstore with htime | ⟨services, hsmem, hzero⟩
    · exact .inl htime
    · exact .inr (hempty q.src services hsmem hzero)

/-- The loop body of `process_ingress`. -/
theorem processEntry_serving (h : Serving host guard e₀ (p :: rest) (e, keep))
    (hbase : Base e₀) (hissue : ∀ m : IssueMbar, guard.issue m.request)
    (hdeliver : p.cls = .mbarrierRequest → p.sramDone = false → p.arriveCycle < e₀.now →
      guard.deliver p (e₀.generation p.src p.ctaSlot)) :
    Outcome (processEntry host e keep p) (Serving host guard e₀ rest) (fun _ => False) := by
  unfold processEntry
  by_cases hearly : e.now ≤ p.arriveCycle
  · rw [if_pos hearly]
    exact h.kept (fun _ => .inl (h.now ▸ hearly))
  rw [if_neg hearly]
  by_cases hdone : p.sramDone = true
  · rw [if_pos hdone]
    exact h.retain hbase hdone
  rw [if_neg hdone]
  have hwaits : p.sramDone = false := Bool.eq_false_iff.mpr hdone
  have hentry := h.first hbase
  obtain ⟨smem, htake, hsome, hnone⟩ := takeSram_spec e p.src (p.bytes - p.sramGot)
  generalize hgot : (e.takeSram p.src (p.bytes - p.sramGot)).1 = got at hsome hnone
  have hpair : e.takeSram p.src (p.bytes - p.sramGot) = (got, { e with smem := smem }) :=
    Prod.ext hgot htake
  have htaken : Serving host guard e₀ (p :: rest) ({ e with smem := smem }, keep) := by
    apply h.withSmem
    intro sm services hsmem hzero
    obtain ⟨services', hsmem', -, hkeep⟩ := hsome services hsmem
    exact ⟨services', hsmem', (hkeep sm hzero).1⟩
  simp only [hpair]
  by_cases hshort : p.sramGot + got < p.bytes
  · rw [if_pos hshort]
    -- the service has nothing left for this SM, so later entries wait too
    have hempty : ∃ services', smem = some services' ∧
        (services' p.src).granted kSmemDsm = 0 := by
      cases hsmem : e.smem with
      | none =>
        have hall := (hnone hsmem).1
        omega
      | some services =>
        obtain ⟨services', hsmem', hused, -⟩ := hsome services hsmem
        exact ⟨services', hsmem', hused (by omega)⟩
    have hfill : Move host guard ({ e with smem := smem }.withIngress (keep ++ p :: rest)) _ :=
      Move.fill rfl hwaits hshort
    have hfilled : Serving host guard e₀ ({ p with sramGot := p.sramGot + got } :: rest)
        ({ e with smem := smem }, keep) := htaken.step (.single hfill) rfl rfl rfl
    have hexposed := hfilled.withSmem
      ({ e with smem := smem }.exposeSram p.src (p.bytes - (p.sramGot + got))).smem (by
        rintro sm services hsmem hzero
        have hsmem' : smem = some services := hsmem
        subst hsmem'
        refine ⟨_, rfl, ?_⟩
        by_cases hsm : sm = p.src
        · subst hsm
          simpa using hzero
        · simpa [Function.update_of_ne hsm] using hzero)
    apply hexposed.kept
    intro _
    obtain ⟨services', hsmem', hzero⟩ := hempty
    subst hsmem'
    refine .inr ⟨_, rfl, ?_⟩
    simpa using hzero
  · rw [if_neg hshort]
    refine serveEntry_serving htaken hbase hissue hwaits ?_ ?_ (p.sramGot + got)
    · intro hstore q hq hsrc
      by_contra hnot
      have hqstore : q.cls.isStore = true := by simpa using hnot
      rcases h.starved q hq hqstore with htime | ⟨services, hsmem, hzero⟩
      · -- `q` arrived before `p`
        have hsorted := (h.base hbase).sorted
        have hle := (List.pairwise_append.mp hsorted).2.2 q hq p List.mem_cons_self
        have hnow := h.now
        change e.now = e₀.now at hnow
        omega
      · -- the SM of `q` had no bytes left, so `p` got none
        obtain ⟨services', -, -, hkeep⟩ := hsome services hsmem
        have hbytes := hentry.bytes hstore
        have hmissing := hentry.short hwaits
        have hnothing := (hkeep q.src hzero).2 hsrc (by omega)
        omega
    · intro hcls
      have hnow := h.now
      have hgens := h.ctaGens
      change e.now = e₀.now at hnow
      change e.ctaGens = e₀.ctaGens at hgens
      have hgeneration : e.generation p.src p.ctaSlot = e₀.generation p.src p.ctaSlot := by
        unfold generation
        rw [hgens]
      change guard.deliver p (e.generation p.src p.ctaSlot)
      rw [hgeneration]
      exact hdeliver hcls hwaits (by omega)

/-- `process_ingress` is a sequence of moves. -/
theorem processIngress_moves (host : DsmHost σ) (guard : DsmGuard σ) (hbase : Base e)
    (hissue : ∀ m : IssueMbar, guard.issue m.request)
    (hdeliver : ∀ p ∈ e.ingress, p.cls = .mbarrierRequest → p.sramDone = false →
      p.arriveCycle < e.now → guard.deliver p (e.generation p.src p.ctaSlot)) :
    Outcome (processIngress host e)
      (fun e' => Moves host guard e e' ∧ e'.now = e.now ∧ e'.ctaGens = e.ctaGens)
      (fun _ => False) := by
  unfold processIngress
  apply outcome_bind
  refine Outcome.imp (outcome_foldlM
    (fun rest state => Serving host guard e rest state ∧ ∀ p ∈ rest, p ∈ e.ingress) ?_ _ _
    ⟨⟨.refl, rfl, rfl, nofun⟩, fun _ hp => hp⟩) ?_
  · rintro p rest ⟨g, keep⟩ ⟨hserving, hsub⟩
    have hp := hsub p List.mem_cons_self
    refine (processEntry_serving hserving hbase hissue (hdeliver p hp)).imp ?_
    exact fun state hstate => ⟨hstate, fun q hq => hsub q (List.mem_cons_of_mem _ hq)⟩
  rintro ⟨g, keep⟩ ⟨hserving, -⟩
  have hmoves := hserving.moves
  rw [List.append_nil] at hmoves
  exact ⟨hmoves, hserving.now, hserving.ctaGens⟩

end DsmEndpoint

end FlashGpuSim
