import FlashGpuSim.Dsm.EndpointOnce

/-!
Generations of CTA slots over whole runs: which accesses of a request reach the CTA
that has its slot. The class of mbarrier requests is served without a look at the
generation, so it is the one that needs an assumption.
-/

namespace FlashGpuSim

open Lib Relation

/-- An access to a CTA belongs to a request of the generation its slot has then. -/
def DsmEvent.Isolated : DsmEvent → Prop
  | .sramWrite p current _ | .sramRead p current _ | .tmaMbar p current
  | .mbarReq p current => current = some p.ctaGen
  | _ => True

instance (event : DsmEvent) : Decidable event.Isolated := by
  unfold DsmEvent.Isolated
  cases event <;> infer_instance

theorem DsmEvent.Current.isolated {event : DsmEvent} (h : event.Current) : event.Isolated := by
  cases event <;> simp_all [Current, Isolated]

namespace DsmEndpoint

variable {σ : Type} {host : DsmHost σ} {guard : DsmGuard σ} {e e' : DsmEndpoint σ}
  {topo : GpuTopology} {gpc : Nat} {fcfg : DsmFabricConfig} {cfg : DsmEndpointConfig}
  {q : DsmPacket} {p : Pending}

/-- Every access in the history was isolated. -/
def Isolated (e : DsmEndpoint σ) : Prop := ∀ event ∈ e.history, event.Isolated

instance (e : DsmEndpoint σ) : Decidable (Isolated e) := by
  unfold Isolated
  infer_instance

theorem Isolated.append (h : Isolated e) {events : List DsmEvent}
    (heq : e'.history = e.history ++ events) (hnew : ∀ event ∈ events, event.Isolated) :
    Isolated e' := by
  intro event hevent
  rw [heq] at hevent
  rcases List.mem_append.mp hevent with hold | hevent
  · exact h event hold
  · exact hnew event hevent

theorem Isolated.single (h : Isolated e) {event : DsmEvent}
    (heq : e'.history = e.history ++ [event]) (hnew : event.Isolated) : Isolated e' := by
  refine h.append heq (fun event' hevent => ?_)
  rw [List.mem_singleton.mp hevent]
  exact hnew

theorem Isolated.access (h : Isolated e) (haccess : Access e e') : Isolated e' := by
  obtain ⟨_, _, rfl, events, heq, hcurrent⟩ := haccess
  exact h.append heq (fun event hevent => (hcurrent event hevent).isolated)

theorem Isolated.completeStores (h : Isolated e) (s d count : Nat) :
    Isolated (completeStores host s d count e) := by
  induction count generalizing e with
  | zero => exact h
  | succ count ih =>
    unfold DsmEndpoint.completeStores
    split
    · split
      · exact h
      · exact ih (h.single rfl trivial)
    · exact h

theorem Isolated.arriveMbar (h : Isolated e) (sm txid : Nat) :
    Isolated (arriveMbarCompletion host e sm txid) := by
  have hload : Isolated (completeLoad host e sm txid) := h.single rfl trivial
  unfold arriveMbarCompletion
  simp only
  split
  · split
    · exact hload.single rfl trivial
    · exact h.single rfl trivial
  · split
    · exact hload
    · exact h

theorem Isolated.arriveResponse (h : Isolated e) (sm : Nat) (q : DsmPacket) :
    Isolated (arriveResponse host e sm q) := by
  unfold DsmEndpoint.arriveResponse
  split
  · exact h.completeStores _ _ _
  · have hdata : Isolated (loadData host e q.transactionId) := h.single rfl trivial
    exact hdata.single rfl trivial
  · have hdata : Isolated (loadData host e q.transactionId) := h.single rfl trivial
    exact hdata.single rfl trivial
  · exact h.arriveMbar sm q.transactionId
  · exact h

theorem Isolated.markApplied (h : Isolated e) (s id : Nat) : Isolated (e.markApplied s id) := by
  unfold DsmEndpoint.markApplied
  split
  · split
    · exact h.single rfl trivial
    · exact h
  · exact h

/-- A request that is served reaches its CTA only at the current generation. -/
theorem Isolated.store (h : Isolated e) (p : Pending) :
    Isolated (notifyTmaMbar host (applyStore host e p) p) := by
  obtain ⟨g, haccess, heq⟩ := applyStore_eq host e p
  have haccrued : Isolated (g.accrueAck p.src p.dst) := by
    have hg := h.access haccess
    unfold accrueAck
    split
    · exact hg
    · exact hg
  have happlied : Isolated (applyStore host e p) := by
    rw [heq]
    exact haccrued.markApplied p.dst p.txid
  exact happlied.access (notifyTmaMbar_access host _ p)

/-- What the generation of an mbarrier request must be when it reaches the hook. -/
def currentGuard (host : DsmHost σ) : DsmGuard σ :=
  { deliver := fun p current => host.onMbarReq.isSome → current = some p.ctaGen }

theorem Move.isolated (hmove : Move host (currentGuard host) e e') (h : Isolated e) :
    Isolated e' := by
  cases hmove with
  | accept x _ hvc hmbar hsend =>
    cases x with
    | none => exact h.single rfl trivial
    | some x => exact h.single rfl trivial
  | @arriveRequest sm p htop =>
    unfold DsmEndpoint.arriveRequest
    simp only
    split
    · exact h
    · exact h
  | @arriveResponse sm q htop =>
    have hpopped : Isolated { e with fab := e.fab.poppedHead .response sm q } := h
    exact hpopped.arriveResponse sm q
  | @store p before behind got hingress hdone hstore hfirst => exact h.store _
  | @reply p before behind got hingress hdone hcls =>
    have hstore : ({ p with sramGot := got } : Pending).cls.isStore = false := by
      rcases hcls with hcls | hcls
      · simp [hcls, DsmPacketClass.isStore]
      · simp [hcls, DsmPacketClass.isStore]
    have hserved := h.access (applySram_access host e hstore)
    exact hserved
  | @mbarCall p before behind got fn hingress hdone hcls hdeliver hhook =>
    refine h.single rfl (hdeliver ?_)
    rw [hhook]
    rfl
  | @mbarReply p before behind got hingress hdone hcls =>
    unfold satisfyWait
    split
    · exact h
    · exact h
  | mbarDrop hingress hdone hcls => exact h.single rfl trivial
  | bump hbump =>
    unfold bumpCtaGen
    split
    · exact h
    · exact h
  | _ => exact h

/-- A host whose hook for mbarrier requests accepts everything. -/
def countingHost : DsmHost Nat where
  onMbarReq := some fun count _ => (true, [], count + 1)

instance : DecidablePred (currentGuard countingHost).issue :=
  fun _ => inferInstanceAs (Decidable True)

instance (p : Pending) (current : Option Nat) :
    Decidable ((currentGuard countingHost).deliver p current) :=
  inferInstanceAs (Decidable (_ → current = some p.ctaGen))

instance (sm cta : Nat) : Decidable ((currentGuard countingHost).bump sm cta) :=
  inferInstanceAs (Decidable True)

instance (s t : Nat) : Decidable ((currentGuard countingHost).outside s t) :=
  inferInstanceAs (Decidable True)

end DsmEndpoint

end FlashGpuSim
