import FlashGpuSim.Dsm.EndpointService

/-!
The operations of an endpoint and its runs. Each operation is a sequence of moves, and
only a cycle of the fabric can fail.
-/

namespace FlashGpuSim

open Lib Relation

namespace DsmEndpoint

variable {σ : Type} {host : DsmHost σ} {guard : DsmGuard σ} {e e' e₀ : DsmEndpoint σ}
  {p : Pending} {keep rest : List Pending}

/-! ### `try_send_pending` and `try_flush_acks` -/

theorem sendEntry_moves (h : Base { e with pending := keep ++ p :: rest }) :
    Outcome (e.sendEntry keep p)
      (fun state => Moves host guard { e with pending := keep ++ p :: rest }
        { state.1 with pending := state.2 ++ rest }) (fun _ => False) := by
  unfold sendEntry
  rw [injectResponse_eq (e := e) h.fab]
  by_cases hcan : e.fab.canInject p.src (dsmVcOf p.cls) p.dst (e.flitsOf p.cls p.bytes) = true
  · rw [if_pos hcan]
    exact ReflTransGen.single (@Move.send _ _ _ _ p keep rest rfl hcan)
  · rw [if_neg hcan]
    change Moves host guard { e with pending := keep ++ p :: rest }
      { e with pending := keep ++ [p] ++ rest }
    rw [List.append_assoc]
    exact .refl

theorem trySendPending_moves (host : DsmHost σ) (guard : DsmGuard σ) (h : Base e) :
    Outcome e.trySendPending (fun e' => Moves host guard e e') (fun _ => False) := by
  unfold trySendPending
  apply outcome_bind
  refine Outcome.imp (outcome_foldlM
    (fun rest state => Moves host guard e { state.1 with pending := state.2 ++ rest }) ?_ _ _
    .refl) ?_
  · rintro p rest ⟨g, keep⟩ hmoves
    exact (sendEntry_moves (hmoves.base h)).imp (fun state hmore => hmoves.trans hmore)
  rintro ⟨g, keep⟩ hmoves
  rw [List.append_nil] at hmoves
  exact hmoves

theorem flushAck_moves (h : Base e) (sm req : Nat) :
    Outcome (e.flushAck sm req) (fun e' => Moves host guard e e') (fun _ => False) := by
  unfold flushAck
  split
  · rename_i hdue
    have howed : 0 < e.acksOwed sm req := by
      simp only [flushDue, Bool.and_eq_true, bne_iff_ne] at hdue
      omega
    rw [injectResponse_eq h.fab]
    by_cases hcan : e.fab.canInject (e.ackEntry sm req).src (dsmVcOf (e.ackEntry sm req).cls)
        (e.ackEntry sm req).dst (e.flitsOf (e.ackEntry sm req).cls (e.ackEntry sm req).bytes) = true
    · rw [if_pos hcan]
      exact ReflTransGen.single (Move.flush howed hcan)
    · rw [if_neg hcan]
      exact ReflTransGen.refl
  · exact ReflTransGen.refl

theorem tryFlushAcks_moves (host : DsmHost σ) (guard : DsmGuard σ) (h : Base e) :
    Outcome e.tryFlushAcks (fun e' => Moves host guard e e') (fun _ => False) := by
  unfold tryFlushAcks
  refine outcome_foldlM (fun _ g => Moves host guard e g) ?_ _ e .refl
  intro sm _ g hmoves
  refine outcome_foldlM (fun _ g' => Moves host guard e g') ?_ _ g hmoves
  intro req _ g' hmoves'
  exact (flushAck_moves (hmoves'.base h) sm req).imp (fun e' hmore => hmoves'.trans hmore)

/-! ### `cycle` -/

/-- The mbarrier requests that a cycle at time `now` will process may reach the hook. -/
def Deliverable (guard : DsmGuard σ) (e : DsmEndpoint σ) (now : Nat) : Prop :=
  ∀ p ∈ e.ingress, p.cls = .mbarrierRequest → p.sramDone = false → p.arriveCycle < now →
    guard.deliver p (e.generation p.src p.ctaSlot)

/-- A cycle is a sequence of moves, and only the fabric can stop it. -/
theorem cycle_moves (h : Base e) (hissue : ∀ m : IssueMbar, guard.issue m.request) {now : Nat}
    (htime : e.now ≤ now) (hdeliver : Deliverable guard e now) :
    Outcome (cycle host e now) (fun e' => Moves host guard e e') e.fab.FlitFailure := by
  unfold cycle
  apply outcome_bind
  refine (DsmFabric.cycle_spec h.fab now).imp ?_
  intro fab hcycled
  have hfabric : Moves host guard e { e with now := now, fab := fab } :=
    .single (.fabric htime hcycled)
  apply outcome_bind
  refine (harvest_moves host guard (hfabric.base h)).mono ?_ nofun
  rintro g ⟨hharvest, hharvested⟩
  have hgo : Moves host guard e g := hfabric.trans hharvest
  have hgens : g.ctaGens = e.ctaGens := hharvested.ctaGens
  have hnow : g.now = now := hharvested.now
  apply outcome_bind
  refine (processIngress_moves host guard (hgo.base h) hissue ?_).mono ?_
    nofun
  · -- an entry that is processed arrived in an earlier cycle
    intro p hp hcls hdone hearly
    have hgeneration : g.generation p.src p.ctaSlot = e.generation p.src p.ctaSlot := by
      unfold generation
      rw [hgens]
    rw [hgeneration]
    rcases hharvested.ingress p hp with hold | hnew
    · exact hdeliver p hold hcls hdone (by omega)
    · change p.arriveCycle = now at hnew
      omega
  · rintro g₁ ⟨hserve, -, -⟩
    have hgo₁ : Moves host guard e g₁ := hgo.trans hserve
    apply outcome_bind
    refine (trySendPending_moves host guard (hgo₁.base h)).mono ?_ nofun
    intro g₂ hsend
    have hgo₂ : Moves host guard e g₂ := hgo₁.trans hsend
    refine (tryFlushAcks_moves host guard (hgo₂.base h)).mono ?_ nofun
    exact fun e' hflush => hgo₂.trans hflush

/-! ### Runs -/

/-- The operations of an endpoint's environment. The last two are changes from outside:
other clients of an SM's shared memory, and the rest of the cluster. -/
inductive Op (σ : Type)
  | store (src dst bytes addr ctaSlot ctaGen : Nat) (data : Option (Nat → UInt8))
  | load (src dst bytes addr ctaSlot ctaGen : Nat)
  | atom (src dst bytes addr ctaSlot ctaGen : Nat) (addend : Option (Nat → UInt8))
  | tma (src dst bytes addr ctaSlot ctaGen : Nat) (data : Option (Nat → UInt8))
      (mbarAddr mbarBytes multicastGroup : Nat)
  | mbar (m : IssueMbar)
  | cycle (now : Nat)
  | bump (sm cta : Nat)
  | smem (sm : Nat) (act : SharedMemoryService → SharedMemoryService)
  | outside (hostState : σ)

/-- The request that an operation issues. -/
def Op.request : Op σ → Option IssueReq
  | .store src dst bytes addr ctaSlot ctaGen data => some
      { cls := .writeData, src := src, dst := dst, bytes := bytes, addr := addr,
        ctaSlot := ctaSlot, ctaGen := ctaGen, data := data }
  | .load src dst bytes addr ctaSlot ctaGen => some
      { cls := .readCommand, src := src, dst := dst, bytes := bytes, addr := addr,
        ctaSlot := ctaSlot, ctaGen := ctaGen }
  | .atom src dst bytes addr ctaSlot ctaGen addend => some
      { cls := .atomicRequest, src := src, dst := dst, bytes := bytes, addr := addr,
        ctaSlot := ctaSlot, ctaGen := ctaGen, data := addend }
  | .tma src dst bytes addr ctaSlot ctaGen data _ _ multicastGroup => some
      { cls := .tmaData, src := src, dst := dst, bytes := bytes, addr := addr,
        ctaSlot := ctaSlot, ctaGen := ctaGen, data := data, multicastGroup := multicastGroup }
  | .mbar m => some m.request
  | _ => none

def step (host : DsmHost σ) (e : DsmEndpoint σ) : Op σ → Checked (DsmEndpoint σ)
  | .store src dst bytes addr ctaSlot ctaGen data =>
    return (← e.issueStore src dst bytes addr ctaSlot ctaGen data).2
  | .load src dst bytes addr ctaSlot ctaGen =>
    return (← e.issueLoad src dst bytes addr ctaSlot ctaGen).2
  | .atom src dst bytes addr ctaSlot ctaGen addend =>
    return (← e.issueAtom src dst bytes addr ctaSlot ctaGen addend).2
  | .tma src dst bytes addr ctaSlot ctaGen data mbarAddr mbarBytes multicastGroup =>
    return (← e.issueTma src dst bytes addr ctaSlot ctaGen data mbarAddr mbarBytes
      multicastGroup).2
  | .mbar m => return (← e.issueMbar m).2
  | .cycle now => e.cycle host now
  | .bump sm cta => return e.bumpCtaGen sm cta
  | .smem sm act => return { e with
      smem := e.smem.map (fun service => Function.update service sm (act (service sm))) }
  | .outside hostState => return { e with hostState := hostState }

/-- What the guard allows in a state. The clock of the cluster never runs backwards. -/
def Allowed (guard : DsmGuard σ) (e : DsmEndpoint σ) (op : Op σ) : Prop :=
  (∀ r, op.request = some r → guard.issue r) ∧
    match op with
    | .cycle now => e.now ≤ now ∧ Deliverable guard e now
    | .bump sm cta => guard.bump sm cta
    | .outside hostState => guard.outside e.hostState hostState
    | _ => True

theorem issue_step_moves (h : Base e) {r : IssueReq} (hvc : dsmVcOf r.cls = .request)
    (hmbar : r.cls = .mbarrierRequest → r.bytes = 0) (hissue : guard.issue r) :
    Outcome (do
        let (_, e) ← e.issueReq r
        return e : Checked (DsmEndpoint σ))
      (fun e' => Moves host guard e e') e.fab.FlitFailure := by
  obtain ⟨ok, e', heq, hno, hyes⟩ := issueReq_moves host guard h
    none hvc hmbar hissue
  rw [heq]
  cases ok with
  | true => exact ReflTransGen.single (hyes rfl).1
  | false =>
    rw [hno rfl]
    exact ReflTransGen.refl

/-- Every allowed operation is a sequence of moves. -/
theorem step_moves (host : DsmHost σ) (guard : DsmGuard σ) (h : Base e)
    (hissue : ∀ m : IssueMbar, guard.issue m.request) {op : Op σ}
    (hop : Allowed guard e op) :
    Outcome (step host e op) (fun e' => Moves host guard e e') e.fab.FlitFailure := by
  obtain ⟨hrequest, hallowed⟩ := hop
  cases op with
  | store src dst bytes addr ctaSlot ctaGen data =>
    exact issue_step_moves h rfl (by simp) (hrequest _ rfl)
  | load src dst bytes addr ctaSlot ctaGen =>
    exact issue_step_moves h rfl (by simp) (hrequest _ rfl)
  | atom src dst bytes addr ctaSlot ctaGen addend =>
    exact issue_step_moves h rfl (by simp) (hrequest _ rfl)
  | tma src dst bytes addr ctaSlot ctaGen data mbarAddr mbarBytes multicastGroup =>
    obtain ⟨ok, e', heq, hno, hyes⟩ := issueReq_moves host guard h
      (some { mbarAddr := mbarAddr, mbarBytes := mbarBytes }) rfl (by simp) (hrequest _ rfl)
    simp only [step, issueTma, heq]
    cases ok with
    | true => exact ReflTransGen.single (hyes rfl).1
    | false =>
      rw [hno rfl]
      exact ReflTransGen.refl
  | mbar m =>
    obtain ⟨ok, e', heq, hmoves, -⟩ := issueMbar_moves host guard h m
      (hrequest _ rfl)
    simp only [step, heq]
    exact hmoves
  | cycle now => exact cycle_moves h hissue hallowed.1 hallowed.2
  | bump sm cta => exact ReflTransGen.single (Move.bump hallowed)
  | smem sm act => exact ReflTransGen.single (Move.smem _)
  | outside hostState => exact ReflTransGen.single (Move.outside hallowed)

/-- An endpoint over a constructed fabric. -/
def Built (topo : GpuTopology) (gpc : Nat) (fcfg : DsmFabricConfig) (cfg : DsmEndpointConfig)
    (e : DsmEndpoint σ) : Prop :=
  ∃ fab smem hostState, DsmFabric.construct topo gpc fcfg = .ok fab ∧
    e = construct fab cfg smem hostState

/-- The states of a constructed endpoint under what the guard allows. -/
def Reachable (host : DsmHost σ) (guard : DsmGuard σ) (topo : GpuTopology) (gpc : Nat)
    (fcfg : DsmFabricConfig) (cfg : DsmEndpointConfig) (e : DsmEndpoint σ) : Prop :=
  ∃ e₀, Built topo gpc fcfg cfg e₀ ∧ Reaches (step host) (Allowed guard) e₀ e

variable {topo : GpuTopology} {gpc : Nat} {fcfg : DsmFabricConfig} {cfg : DsmEndpointConfig}

theorem Built.base (h : Built topo gpc fcfg cfg e) : Base e := by
  obtain ⟨fab, smem, hostState, hfab, rfl⟩ := h
  obtain ⟨hinv, -, hbuffers⟩ := DsmFabric.construct_spec hfab
  refine ⟨hinv, ?_, List.Pairwise.nil, List.forall_mem_nil _, List.forall_mem_nil _, List.forall_mem_nil _⟩
  intro k q hq
  change q ∈ fab.lane k at hq
  rw [hbuffers] at hq
  cases hq

/-- An invariant of the moves is an invariant of every run. -/
theorem Reachable.invariant (inv : DsmEndpoint σ → Prop)
    (h : Reachable host guard topo gpc fcfg cfg e)
    (hissue : ∀ m : IssueMbar, guard.issue m.request)
    (hinit : ∀ e, Built topo gpc fcfg cfg e → inv e)
    (hmove : ∀ e e', Base e → inv e → Move host guard e e' → inv e') : Base e ∧ inv e := by
  obtain ⟨e₀, hbuilt, hrun⟩ := h
  refine hrun.invariant (fun e => Base e ∧ inv e) ⟨hbuilt.base, hinit e₀ hbuilt⟩ ?_
  rintro g g' op ⟨hbase, hinv⟩ hallowed hok
  have hmoves := (step_moves host guard hbase hissue hallowed).of_ok hok
  refine ⟨hmoves.base hbase, ?_⟩
  clear hok
  induction hmoves with
  | refl => exact hinv
  | tail hpre hlast ih => exact hmove _ _ (Moves.base hpre hbase) ih hlast

/-! ### Running an endpoint -/

section Decidable

variable [DecidablePred guard.issue] [∀ p current, Decidable (guard.deliver p current)]
  [∀ sm cta, Decidable (guard.bump sm cta)] [∀ s t, Decidable (guard.outside s t)]

instance (e : DsmEndpoint σ) (now : Nat) : Decidable (Deliverable guard e now) := by
  unfold Deliverable
  infer_instance

instance (op : Op σ) : Decidable (∀ r, op.request = some r → guard.issue r) :=
  match op.request with
  | none => .isTrue nofun
  | some r => decidable_of_iff (guard.issue r) (by simp)

instance (e : DsmEndpoint σ) (op : Op σ) : Decidable (Allowed guard e op) := by
  unfold Allowed
  cases op <;> infer_instance

instance : DecidablePred ({} : DsmGuard σ).issue := fun _ => inferInstanceAs (Decidable True)

instance (p : Pending) (current : Option Nat) :
    Decidable (({} : DsmGuard σ).deliver p current) := inferInstanceAs (Decidable True)

instance (sm cta : Nat) : Decidable (({} : DsmGuard σ).bump sm cta) :=
  inferInstanceAs (Decidable True)

instance (s t : σ) : Decidable (({} : DsmGuard σ).outside s t) :=
  inferInstanceAs (Decidable True)

/-- A constructed endpoint after a list of allowed operations. -/
def runFrom (host : DsmHost σ) (guard : DsmGuard σ) [DecidablePred guard.issue]
    [∀ p current, Decidable (guard.deliver p current)]
    [∀ sm cta, Decidable (guard.bump sm cta)] [∀ s t, Decidable (guard.outside s t)]
    (topo : GpuTopology) (gpc : Nat) (fcfg : DsmFabricConfig) (cfg : DsmEndpointConfig)
    (smem : Option (Nat → SharedMemoryService)) (hostState : σ) (ops : List (Op σ)) :
    Option (DsmEndpoint σ) :=
  match DsmFabric.construct topo gpc fcfg with
  | .ok fab => runAllowed (step host) (Allowed guard) (construct fab cfg smem hostState) ops
  | .error _ => none

/-- A run whose last state passes a test reaches a state that passes it. -/
theorem exists_reachable {smem : Option (Nat → SharedMemoryService)} {hostState : σ}
    {ops : List (Op σ)} {test : DsmEndpoint σ → Prop} [DecidablePred test]
    (h : (runFrom host guard topo gpc fcfg cfg smem hostState ops).any
      (fun e => decide (test e)) = true) :
    ∃ e, Reachable host guard topo gpc fcfg cfg e ∧ test e := by
  obtain ⟨e, he, htest⟩ := (Option.any_eq_true _ _).mp h
  refine ⟨e, ?_, of_decide_eq_true htest⟩
  unfold runFrom at he
  split at he
  · rename_i fab hfab
    exact ⟨_, ⟨fab, smem, hostState, hfab, rfl⟩, .of_runAllowed .refl he⟩
  · cases he

end Decidable

end DsmEndpoint

end FlashGpuSim
