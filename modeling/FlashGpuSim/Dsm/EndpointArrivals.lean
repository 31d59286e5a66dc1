import FlashGpuSim.Dsm.EndpointBase

/-!
Issue and arrival as moves: the requests an SM issues, the `issue_mbar` calls of a hook,
and what `harvest` pops from the fabric. None of them fails.
-/

namespace FlashGpuSim

open Lib Relation

namespace DsmEndpoint

variable {σ : Type} {host : DsmHost σ} {guard : DsmGuard σ} {e e' : DsmEndpoint σ}
  {p : Pending}

/-! ### Issue and injection never fail -/

/-- The classes a request is issued with. -/
theorem canIssue_eq {r : IssueReq} (hvc : dsmVcOf r.cls = .request)
    (hmbar : r.cls = .mbarrierRequest → r.bytes = 0) :
    e.canIssue r = e.canSend r.cls r.src r.dst r.bytes := by
  unfold canIssue
  split
  · rename_i hcls
    rw [hcls]
    rfl
  · rename_i hcls
    rw [hcls]
    rfl
  · rename_i hcls
    rw [hcls]
    rfl
  · rename_i hcls
    rw [hcls]
    rfl
  · rename_i hcls
    rw [hmbar hcls, hcls]
    rfl
  · rename_i hstore hload hatom htma hmb
    cases hcls : r.cls <;> simp_all [dsmVcOf]

theorem issueReq_eq (hinv : e.fab.Inv) {r : IssueReq} (hvc : dsmVcOf r.cls = .request)
    (hmbar : r.cls = .mbarrierRequest → r.bytes = 0) :
    e.issueReq r = .ok (
      if e.canSend r.cls r.src r.dst r.bytes then
        (true, e.accept r (e.fab.injected (e.requestPacket r)))
      else (false, e)) := by
  unfold issueReq
  rw [canIssue_eq hvc hmbar]
  split
  · rename_i hsend
    rw [DsmFabric.inject_eq hinv, if_pos (canSend_inject hvc hsend)]
    rfl
  · rfl

theorem injectResponse_eq (hinv : e.fab.Inv) (p : Pending) :
    e.injectResponse p = .ok (
      if e.fab.canInject p.src (dsmVcOf p.cls) p.dst (e.flitsOf p.cls p.bytes) then
        (true, e.respond p (e.fab.injected (e.responsePacket p)))
      else (false, e)) := by
  unfold injectResponse
  split
  · rename_i hcan
    rw [DsmFabric.inject_eq hinv, if_pos (canInject_responsePacket hcan)]
    rfl
  · rfl

/-- What an `issue_mbar` leaves alone. -/
structure Issued (e e' : DsmEndpoint σ) : Prop where
  now : e'.now = e.now
  smem : e'.smem = e.smem
  ingress : e'.ingress = e.ingress
  ctaGens : e'.ctaGens = e.ctaGens

theorem Issued.refl (e : DsmEndpoint σ) : Issued e e := ⟨rfl, rfl, rfl, rfl⟩

theorem Issued.trans {e'' : DsmEndpoint σ} (h : Issued e e') (h' : Issued e' e'') :
    Issued e e'' :=
  ⟨h'.now.trans h.now, h'.smem.trans h.smem, h'.ingress.trans h.ingress,
    h'.ctaGens.trans h.ctaGens⟩

/-- A request, with its extra when it is accepted. -/
theorem issueReq_moves (host : DsmHost σ) (guard : DsmGuard σ) (h : Base e)
    {r : IssueReq} (x : Option Extra)
    (hvc : dsmVcOf r.cls = .request) (hmbar : r.cls = .mbarrierRequest → r.bytes = 0)
    (hissue : guard.issue r) :
    ∃ ok e', e.issueReq r = .ok (ok, e') ∧ (ok = false → e' = e) ∧
      (ok = true → Move host guard e (e'.withExtra x) ∧ Issued e (e'.withExtra x)) := by
  rw [issueReq_eq h.fab hvc hmbar]
  split
  · rename_i hsend
    refine ⟨true, _, rfl, nofun, fun _ => ⟨.accept x hissue hvc hmbar hsend, ?_⟩⟩
    cases x with
    | none => exact ⟨rfl, rfl, rfl, rfl⟩
    | some x => exact ⟨rfl, rfl, rfl, rfl⟩
  · exact ⟨false, e, rfl, fun _ => rfl, nofun⟩

/-- A `WAIT_DONE` message joins `m_pending`, and leaves it at once when there is room. -/
theorem waitDone_moves (host : DsmHost σ) (guard : DsmGuard σ) (h : Base e) (m : IssueMbar) :
    ∃ e', (do
        let (sent, g) ← (e.noticed m).injectResponse (e.waitDone m)
        return (true, if sent then g else { g with pending := g.pending ++ [e.waitDone m] }) :
          Checked (Bool × DsmEndpoint σ)) = .ok (true, e') ∧
      Moves host guard e e' ∧ Issued e e' := by
  have hnotice : Move host guard e { e.noticed m with pending := e.pending ++ [e.waitDone m] } :=
    .notice
  rw [injectResponse_eq (e := e.noticed m) h.fab]
  by_cases hcan : (e.noticed m).fab.canInject (e.waitDone m).src (dsmVcOf (e.waitDone m).cls)
      (e.waitDone m).dst ((e.noticed m).flitsOf (e.waitDone m).cls (e.waitDone m).bytes) = true
  · rw [if_pos hcan]
    refine ⟨_, rfl, .tail (.single hnotice) ?_, ⟨rfl, rfl, rfl, rfl⟩⟩
    have hsend : Move host guard { e.noticed m with pending := e.pending ++ [e.waitDone m] } _ :=
      @Move.send _ _ _ _ (e.waitDone m) e.pending [] rfl hcan
    rw [List.append_nil] at hsend
    exact hsend
  · rw [if_neg hcan]
    exact ⟨_, rfl, .single hnotice, ⟨rfl, rfl, rfl, rfl⟩⟩

theorem issueMbar_moves (host : DsmHost σ) (guard : DsmGuard σ) (h : Base e) (m : IssueMbar)
    (hissue : guard.issue m.request) :
    ∃ ok e', e.issueMbar m = .ok (ok, e') ∧ Moves host guard e e' ∧ Issued e e' := by
  unfold issueMbar
  split
  · obtain ⟨e', heq, hmoves, hissued⟩ := waitDone_moves host guard h m
    exact ⟨true, e', heq, hmoves, hissued⟩
  · obtain ⟨ok, e', heq, hno, hyes⟩ := issueReq_moves host guard h
      (r := m.request) (some (IssueMbar.extra m)) rfl (fun _ => rfl) hissue
    have heq' : e.issueReq
        { cls := .mbarrierRequest, src := m.src, dst := m.dst, bytes := 0, addr := m.mbarAddr,
          ctaSlot := m.ctaSlot, ctaGen := m.ctaGen } = .ok (ok, e') := heq
    rw [heq']
    cases ok with
    | true => exact ⟨true, _, rfl, .single (hyes rfl).1, (hyes rfl).2⟩
    | false =>
      rw [hno rfl]
      exact ⟨false, e, rfl, .refl, .refl e⟩

/-- The `issue_mbar` calls of one hook call. -/
theorem issueMbars_moves (host : DsmHost σ) (guard : DsmGuard σ) (h : Base e)
    (hissue : ∀ m : IssueMbar, guard.issue m.request)
    (calls : List IssueMbar) :
    Outcome (e.issueMbars calls)
      (fun e' => Moves host guard e e' ∧ Issued e e') (fun _ => False) := by
  refine outcome_foldlM (fun _ g => Moves host guard e g ∧ Issued e g) ?_ calls e
    ⟨.refl, .refl e⟩
  rintro m rest g ⟨hmoves, hissued⟩
  obtain ⟨ok, g', heq, hmore, hmore'⟩ :=
    issueMbar_moves host guard (hmoves.base h) m (hissue m)
  rw [heq]
  exact ⟨hmoves.trans hmore, hissued.trans hmore'⟩

/-! ### `harvest` -/

/-- What `harvest` leaves alone, and what it adds to `m_ingress`. -/
structure Harvested (e e' : DsmEndpoint σ) : Prop where
  now : e'.now = e.now
  ctaGens : e'.ctaGens = e.ctaGens
  ingress : ∀ p ∈ e'.ingress, p ∈ e.ingress ∨ p.arriveCycle = e.now

theorem Harvested.refl (e : DsmEndpoint σ) : Harvested e e := ⟨rfl, rfl, fun _ hp => .inl hp⟩

theorem Harvested.trans {e'' : DsmEndpoint σ} (h : Harvested e e') (h' : Harvested e' e'') :
    Harvested e e'' := by
  refine ⟨h'.now.trans h.now, h'.ctaGens.trans h.ctaGens, ?_⟩
  intro p hp
  rcases h'.ingress p hp with hp | htime
  · exact h.ingress p hp
  · rw [h.now] at htime
    exact .inr htime

theorem arriveRequest_harvested (sm : Nat) (q : DsmPacket) (fab : DsmFabric) :
    Harvested e ({ e with fab := fab }.arriveRequest sm q) := by
  have hmem : ∀ p ∈ e.ingress ++ [({ e with fab := fab } : DsmEndpoint σ).ingressEntry sm q],
      p ∈ e.ingress ∨ p.arriveCycle = e.now := by
    intro p hp
    rcases List.mem_append.mp hp with hp | hp
    · exact .inl hp
    · rw [List.mem_singleton.mp hp]
      exact .inr rfl
  unfold arriveRequest
  simp only
  split
  · exact ⟨rfl, rfl, hmem⟩
  · exact ⟨rfl, rfl, hmem⟩

theorem arriveResponse_harvested (sm : Nat) (q : DsmPacket) (fab : DsmFabric) :
    Harvested e (arriveResponse host { e with fab := fab } sm q) := by
  obtain ⟨_, _, _, _, _, _, heq⟩ := arriveResponse_completion host
    { e with fab := fab } sm q
  rw [heq]
  exact ⟨rfl, rfl, fun _ hp => .inl hp⟩

/-- A draining loop is a sequence of arrivals. -/
theorem drain_moves (host : DsmHost σ) (guard : DsmGuard σ) {vc : DsmVc} {sm : Nat}
    {arrive : DsmEndpoint σ → DsmPacket → DsmEndpoint σ}
    (harrive : ∀ (g : DsmEndpoint σ) q, g.fab.top sm vc = some q →
      Move host guard g (arrive { g with fab := g.fab.poppedHead vc sm q } q) ∧
        Harvested g (arrive { g with fab := g.fab.poppedHead vc sm q } q))
    (left : Nat) (h : Base e) :
    Outcome (drain vc sm arrive left e)
      (fun e' => Moves host guard e e' ∧ Harvested e e') (fun _ => False) := by
  induction left generalizing e with
  | zero => exact ⟨.refl, .refl e⟩
  | succ left ih =>
    unfold drain
    cases htop : e.fab.top sm vc with
    | none => exact ⟨.refl, .refl e⟩
    | some q =>
      obtain ⟨hmove, hharvested⟩ := harrive e q htop
      simp only [DsmFabric.pop_eq h.fab, htop]
      refine (ih (hmove.base h)).imp ?_
      rintro e' ⟨hmoves, hmore⟩
      exact ⟨.head hmove hmoves, hharvested.trans hmore⟩

/-- The loop ends because nothing is left to pop, not because it ran out of turns. -/
theorem drain_top {vc : DsmVc} {sm : Nat}
    {arrive : DsmEndpoint σ → DsmPacket → DsmEndpoint σ}
    (harrive : ∀ (g : DsmEndpoint σ) q, Base g → (arrive g q).fab = g.fab ∧ Base (arrive g q))
    {left : Nat} (h : Base e) (hleft : (e.fab.ej vc sm).length ≤ left) :
    Outcome (drain vc sm arrive left e) (fun e' => e'.fab.top sm vc = none)
      (fun _ => False) := by
  induction left generalizing e with
  | zero =>
    have hnil : e.fab.ej vc sm = [] := List.length_eq_zero_iff.mp (by omega)
    change e.fab.top sm vc = none
    unfold DsmFabric.top
    rw [hnil]
    split
    · rfl
    · rfl
  | succ left ih =>
    unfold drain
    cases htop : e.fab.top sm vc with
    | none => exact htop
    | some q =>
      obtain ⟨-, -, rest, hej⟩ := DsmFabric.top_spec htop
      obtain ⟨hfab, hbase⟩ := harrive _ q (h.popped htop)
      simp only [DsmFabric.pop_eq h.fab, htop]
      apply ih hbase
      rw [hfab]
      change (((e.fab.toFabricBuffers.popMove vc sm q (e.fab.ej vc sm).tail).ej vc sm)).length ≤ _
      rw [FabricBuffers.popMove_ej, if_pos ⟨rfl, rfl⟩, hej]
      rw [hej] at hleft
      simpa using hleft

theorem harvestSm_moves (host : DsmHost σ) (guard : DsmGuard σ) (h : Base e) (sm : Nat) :
    Outcome (harvestSm host e sm)
      (fun e' => Moves host guard e e' ∧ Harvested e e') (fun _ => False) := by
  unfold harvestSm
  apply outcome_bind
  refine (drain_moves host guard
    (fun g q htop => ⟨.arriveRequest htop, arriveRequest_harvested sm q _⟩) _ h).imp ?_
  rintro g ⟨hmoves, hharvested⟩
  refine (drain_moves host guard
    (fun g q htop => ⟨.arriveResponse htop, arriveResponse_harvested sm q _⟩) _
    (hmoves.base h)).imp ?_
  rintro e' ⟨hmore, hharvested'⟩
  exact ⟨hmoves.trans hmore, hharvested.trans hharvested'⟩

theorem harvest_moves (host : DsmHost σ) (guard : DsmGuard σ) (h : Base e) :
    Outcome (harvest host e)
      (fun e' => Moves host guard e e' ∧ Harvested e e') (fun _ => False) := by
  unfold harvest
  refine outcome_foldlM (fun _ g => Moves host guard e g ∧ Harvested e g) ?_ _ e
    ⟨.refl, .refl e⟩
  rintro sm rest g ⟨hmoves, hharvested⟩
  refine (harvestSm_moves host guard (hmoves.base h) sm).imp ?_
  rintro g' ⟨hmore, hharvested'⟩
  exact ⟨hmoves.trans hmore, hharvested.trans hharvested'⟩

end DsmEndpoint

end FlashGpuSim
