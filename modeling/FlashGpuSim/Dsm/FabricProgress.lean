import FlashGpuSim.Dsm.FabricRun

/-!
Whether a single sending SM makes progress. A cycle looks at one head of the SM
only, the one its cursors select, and a cycle in which that head fails the credit
test leaves the cursors where they are.
-/

namespace FlashGpuSim

open Lib Relation

namespace FabricBuffers

variable {b : FabricBuffers} {n now : Nat}

theorem CycleMoves.allFlits {b' : FabricBuffers} (hmoves : CycleMoves n now b b')
    (h : b.AllFlits) : b'.AllFlits := by
  induction hmoves with
  | refl => exact h
  | tail _ hmove ih =>
    obtain ⟨vc, sm, hmove⟩ := hmove
    exact hmove.allFlits ih

theorem CycleMoves.granted_prefix {b' : FabricBuffers} (hmoves : CycleMoves n now b b') :
    b.granted <+: b'.granted := by
  induction hmoves with
  | refl => exact List.prefix_rfl
  | tail _ hmove ih =>
    obtain ⟨vc, sm, hmove⟩ := hmove
    exact ih.trans (GrantMoves.granted_prefix (.single hmove))

end FabricBuffers

namespace DsmFabric

open FabricBuffers

variable {f g : DsmFabric} {topo : GpuTopology} {gpc : Nat} {cfg : DsmFabricConfig}
  {sm now : Nat} {r : Request}

/-! ### Packets with flits never stop the fabric -/

theorem step_allFlits (hinv : f.Inv) (h : f.AllFlits) {op : Op} (hop : f.FlitOp op) :
    Outcome (f.step op) (fun f' => f'.AllFlits) (fun _ => False) := by
  cases op with
  | inject packet =>
    simp only [step, inject_eq hinv]
    split
    · refine forall_replaced h ?_ (storeMove_queue _ _)
      intro q hq
      rcases List.mem_cons.mp ((insertQueue_perm _ _).mem_iff.mp hq) with rfl | hq
      · exact hop.2
      · exact h _ _ _ q hq
    · exact h
  | cycle now =>
    exact (cycle_spec hinv now).mono (fun _ hc => CycleMoves.allFlits hc.moves h)
      (fun _ he => he.2 h)
  | pop dst vc =>
    simp only [step, pop_eq hinv]
    cases htop : f.top dst vc with
    | none => exact h
    | some p => exact h

theorem Reachable.allFlits (h : Reachable topo gpc cfg FlitOp f) : f.Inv ∧ f.AllFlits := by
  obtain ⟨f₀, hbuilt, hrun⟩ := h
  obtain ⟨hinv, -, hbuf⟩ := construct_spec hbuilt
  refine hrun.invariant (fun f => f.Inv ∧ f.AllFlits) ⟨hinv, ?_⟩ ?_
  · rw [hbuf]
    exact fun _ _ _ p hp => (nomatch hp)
  · rintro f f' op ⟨hinv, hall⟩ hop hok
    exact ⟨(step_inv hinv hop.fresh).of_ok hok, (step_allFlits hinv hall hop).of_ok hok⟩

/-- No assertion of the fabric fails while packets have at least one flit. -/
theorem Reachable.step_succeeds (h : Reachable topo gpc cfg FlitOp f) {op : Op}
    (hop : f.FlitOp op) : ∃ f', f.step op = .ok f' ∧ f'.Inv := by
  obtain ⟨f', hok, -⟩ := (step_allFlits h.allFlits.1 h.allFlits.2 hop).exists_ok
  exact ⟨f', hok, (step_inv h.allFlits.1 hop.fresh).of_ok hok⟩

/-! ### The only sender -/

/-- Only `sm` has queued packets. -/
def OnlyQueued (f : DsmFabric) (sm : Nat) : Prop :=
  ∀ vc src dst, src ≠ sm → f.queue vc src dst = []

/-- Some head of `sm` passes the credit test of its destination. -/
def SomeHeadPasses (f : DsmFabric) (sm : Nat) : Prop :=
  ∃ vc dst p, (f.voq vc sm).front dst = some p ∧ f.creditTest vc dst p = true

/-- Cycle `t`, or cycles after it without any other operation, send a flit. -/
def GrantsEventually (f : DsmFabric) (t : Nat) : Prop :=
  ∃ (later : List Nat) (f' : DsmFabric), (t :: later).foldlM cycle f = .ok f' ∧
    f.granted.length < f'.granted.length

/-- The head that `pick_head` selects for `sm` passes the credit test together with
its multicast group, and the cycle visits the CPC of `sm`. -/
def SelectedHeadPasses (f : DsmFabric) (sm : Nat) : Prop :=
  f.cpc sm < f.cfg.cpcs ∧ ∃ r, f.headRequest sm = some r ∧ f.grantable r = true

theorem peekDst_none {vc : DsmVc} (h : ∀ dst, f.queue vc sm dst = []) :
    f.peekDst sm vc = none := by
  unfold peekDst
  refine List.find?_eq_none.mpr (fun d _ => ?_)
  have hq : (f.voq vc sm).q d = [] := h d
  simp [BoundedVoq.empty, hq]

/-- Only the sender makes a request. -/
theorem OnlyQueued.request (honly : f.OnlyQueued sm) (hr : r ∈ f.collectRequests) :
    f.lastEligible sm = true ∧ f.headRequest sm = some r := by
  obtain ⟨sm', -, helig, hhead⟩ := mem_collectRequests.mp hr
  by_cases hsm : sm' = sm
  · subst hsm
    exact ⟨helig, hhead⟩
  · have hnone : f.headRequest sm' = none := by
      have hq : ∀ vc dst, f.queue vc sm' dst = [] := fun vc dst => honly vc sm' dst hsm
      simp [headRequest, pickHead, peekDst_none (hq .request), peekDst_none (hq .response)]
    rw [hnone] at hhead
    cases hhead

/-- `g` is `f` after cycles that sent nothing: only the clock, the shaper and the
arbiters have moved. -/
def Idled (f g : DsmFabric) : Prop :=
  ∃ now hrcAcc lastEligible routeRr cpcRr, g = { f with
    now := now, hrcAcc := hrcAcc, lastEligible := lastEligible, routeRr := routeRr,
    cpcRr := cpcRr }

theorem Idled.refl (f : DsmFabric) : Idled f f := ⟨_, _, _, _, _, rfl⟩

theorem Idled.shape (h : Idled f g) (now : Nat) : Idled f (g.shape now) := by
  obtain ⟨_, _, _, _, _, rfl⟩ := h
  exact ⟨_, _, _, _, _, rfl⟩

theorem Idled.arbiters (h : Idled f g) (routeRr cpcRr : Nat → RoundRobinArbiter) :
    Idled f { g with routeRr := routeRr, cpcRr := cpcRr } := by
  obtain ⟨_, _, _, _, _, rfl⟩ := h
  exact ⟨_, _, _, _, _, rfl⟩

/-- What the selection of a head and its credit test read does not change while the
fabric idles. -/
theorem Idled.selection (h : Idled f g) (sm : Nat) (r : Request) :
    g.headRequest sm = f.headRequest sm ∧ g.grantable r = f.grantable r ∧
      g.toFabricBuffers = f.toFabricBuffers ∧ g.cfg = f.cfg ∧ g.cpc = f.cpc := by
  obtain ⟨_, _, _, _, _, rfl⟩ := h
  exact ⟨rfl, rfl, rfl, rfl, rfl⟩

/-- A cycle in which the selected head is blocked leaves the fabric idle. -/
theorem cycle_idles (hinv : g.Inv) (honly : f.OnlyQueued sm)
    (hblocked : ¬ f.SelectedHeadPasses sm) (hidle : Idled f g) (now : Nat) :
    Outcome (g.cycle now) (fun g' => g'.Inv ∧ Idled f g') (fun _ => True) := by
  have hbase : Idled f (g.shape now) := hidle.shape now
  have honly' : (g.shape now).OnlyQueued sm := by
    intro vc src dst hsrc
    have hbuf := (hbase.selection sm ⟨0, .request, 0, 0, 0⟩).2.2.1
    rw [show (g.shape now).queue vc src dst = f.queue vc src dst by
      rw [← hbuf]]
    exact honly vc src dst hsrc
  have hloop : LoopInvariant now (g.shape now).collectRequests (g.shape now)
      (fun h => SameSetup (g.shape now) h ∧ h.Inv ∧ Idled f h) (fun _ => True) :=
    { setup := fun h hh => hh.1
      inv := fun h hh => hh.2.1
      arbiters := fun h routeRr cpcRr hh hinv' =>
        ⟨hh.1.trans ⟨rfl, rfl, rfl, rfl, rfl, rfl, rfl, rfl, rfl, rfl, rfl⟩, hinv',
          hh.2.2.arbiters routeRr cpcRr⟩
      served := fun h h' r hh hr hcpc hserved => by
        -- the only request is the blocked head, so serving it changes nothing
        obtain ⟨-, hhead⟩ := honly'.request hr
        have hsel := hbase.selection sm r
        rw [hsel.1] at hhead
        have hrc : r.cpc = f.cpc sm := by
          rw [← hsel.1] at hhead
          have hspec := headRequest_spec (shape_inv hinv now).n_pos
            (shape_inv hinv now).routes_pos hhead
          rw [hspec.2.2.2.2.1, hsel.2.2.2.2]
        have hstall : h.grantable r = false := by
          rw [(hh.2.2.selection sm r).2.1]
          by_contra hpass
          refine hblocked ⟨?_, r, hhead, by simpa using hpass⟩
          rw [← hrc, ← hsel.2.2.2.1]
          exact hcpc
        rw [hserved.stalled hstall]
        exact hh
      failure := fun _ _ _ _ => trivial }
  exact (cycle_rule hinv hloop ⟨SameSetup.refl _, shape_inv hinv now, hbase⟩).imp
    (fun _ hh => hh.2)

theorem cycles_idle (hinv : g.Inv) (honly : f.OnlyQueued sm)
    (hblocked : ¬ f.SelectedHeadPasses sm) (hidle : Idled f g) (ts : List Nat) :
    Outcome (ts.foldlM cycle g) (fun g' => g'.Inv ∧ Idled f g') (fun _ => True) :=
  outcome_foldlM (fun _ h => h.Inv ∧ Idled f h)
    (fun now _ _ hh => cycle_idles hh.1 honly hblocked hh.2 now) ts g ⟨hinv, hidle⟩

/-- A fabric whose selected head is blocked sends nothing until another operation. -/
theorem blocked_never_grants (hinv : f.Inv) (honly : f.OnlyQueued sm)
    (hblocked : ¬ f.SelectedHeadPasses sm) (t : Nat) : ¬ f.GrantsEventually t := by
  rintro ⟨later, f', hok, hlt⟩
  have hidle := (cycles_idle hinv honly hblocked (Idled.refl f) (t :: later)).of_ok hok
  rw [(hidle.2.selection sm ⟨0, .request, 0, 0, 0⟩).2.2.1] at hlt
  omega

/-- Within the cycle, `h` has sent a flit since `f`. -/
def Sent (now : Nat) (f h : DsmFabric) : Prop :=
  Cycled now f h ∧ f.granted.length < h.granted.length

theorem Sent.served {h h' : DsmFabric} (hsent : Sent now f h) (hserved : Served now r h h') :
    Sent now f h' :=
  ⟨hsent.1.served hserved, lt_of_lt_of_le hsent.2 hserved.moves.granted_prefix.length_le⟩

/-- Serving a request that passes sends a flit, if none was sent before. -/
theorem sent_of_idled {h h' : DsmFabric} (hcycled : Cycled now f h) (hidle : Idled f h)
    (hgrant : f.grantable r = true) (hserved : Served now r h h') : Sent now f h' := by
  have hsel := hidle.selection r.sm r
  have hprog := hserved.progress (hsel.2.1.trans hgrant)
  rw [hsel.2.2.1] at hprog
  exact ⟨hcycled.served hserved, hprog⟩

/-- A cycle in which the SM is eligible and its selected head passes sends a flit. -/
theorem cycle_grants (hinv : f.Inv) (hflits : f.AllFlits) (honly : f.OnlyQueued sm)
    (hsm : sm < f.n) (helig : f.eligible now sm = true) (hpass : f.SelectedHeadPasses sm) :
    ∃ f', f.cycle now = .ok f' ∧ f.granted.length < f'.granted.length := by
  obtain ⟨hcpcs, r, hhead, hgrant⟩ := hpass
  have hbase : Idled f (f.shape now) := (Idled.refl f).shape now
  have hrc := (headRequest_spec hinv.n_pos hinv.routes_pos hhead).2.2.2.2.1
  have hr : r ∈ (f.shape now).collectRequests := by
    refine mem_collectRequests.mpr ⟨sm, hsm, ?_, hhead⟩
    simp only [shape, if_pos hsm]
    exact helig
  have hthis : ∀ q ∈ (f.shape now).collectRequests, q = r := by
    intro q hq
    have hqhead := (OnlyQueued.request (f := f.shape now) honly hq).2
    rw [(hbase.selection sm r).1, hhead] at hqhead
    exact (Option.some.inj hqhead).symm
  have hnofail : ∀ (h : DsmFabric) (e : Assertion), Cycled now f h → h.FlitFailure e → False :=
    fun h e hc he => he.2 (CycleMoves.allFlits hc.moves hflits)
  -- before the first grant nothing but arbiters has changed
  have hfirst : ∀ h h' q, (Cycled now f h ∧ Idled f h) ∨ Sent now f h →
      q ∈ (f.shape now).collectRequests → Served now q h h' → Sent now f h' := by
    intro h h' q hh hq hserved
    obtain rfl := hthis q hq
    rcases hh with ⟨hcycled, hidle⟩ | hsent
    · exact sent_of_idled hcycled hidle hgrant hserved
    · exact hsent.served hserved
  have hcycled : ∀ h, (Cycled now f h ∧ Idled f h) ∨ Sent now f h → Cycled now f h :=
    fun h hh => hh.elim And.left And.left
  have hloop : LoopInvariant now (f.shape now).collectRequests (f.shape now)
      (fun h => (Cycled now f h ∧ Idled f h) ∨ Sent now f h) (fun _ => False) :=
    { setup := fun h hh => (hcycled h hh).setup
      inv := fun h hh => (hcycled h hh).inv
      arbiters := fun h routeRr cpcRr hh hinv' =>
        hh.imp (fun hi => ⟨hi.1.arbiters routeRr cpcRr hinv', hi.2.arbiters routeRr cpcRr⟩)
          (fun hs => ⟨hs.1.arbiters routeRr cpcRr hinv', hs.2⟩)
      served := fun h h' q hh hq _ hserved => .inr (hfirst h h' q hh hq hserved)
      failure := fun h e hh he => hnofail h e (hcycled h hh) he }
  have hloop' : LoopInvariant now (f.shape now).collectRequests (f.shape now)
      (Sent now f) (fun _ => False) :=
    { setup := fun h hh => hh.1.setup
      inv := fun h hh => hh.1.inv
      arbiters := fun h routeRr cpcRr hh hinv' => ⟨hh.1.arbiters routeRr cpcRr hinv', hh.2⟩
      served := fun h h' q hh _ _ hserved => hh.served hserved
      failure := fun h e hh he => hnofail h e hh.1 he }
  obtain ⟨f', hok, hsent⟩ := (cycle_serves hinv hloop hloop' hfirst
    (.inl ⟨Cycled.refl hinv now, hbase⟩) hr (hrc ▸ hcpcs)).exists_ok
  exact ⟨f', hok, hsent.2⟩

/-- `OnlyQueued` looks at the SMs of the GPC only. -/
theorem onlyQueued_of_range (hinv : f.Inv)
    (h : ∀ src < f.n, ∀ dst < f.n, src ≠ sm →
      f.queue .request src dst = [] ∧ f.queue .response src dst = []) : f.OnlyQueued sm := by
  intro vc src dst hne
  by_cases hin : src < f.n ∧ dst < f.n
  · obtain ⟨hreq, hrsp⟩ := h src hin.1 dst hin.2 hne
    cases vc with
    | request => exact hreq
    | response => exact hrsp
  · exact hinv.buffers.outside vc src dst hin

/-- One store to SM 1 that nobody pops, one to SM 2 that moves the cursor past SM 2,
and then a store to each. -/
def blockedRun : List Op :=
  [.inject (mkPkt 0 1 .writeData 32 0), .cycle 2, .inject (mkPkt 0 2 .writeData 32 64),
    .cycle 4, .pop 2 .request, .inject (mkPkt 0 1 .writeData 32 0),
    .inject (mkPkt 0 2 .writeData 32 64)]

end DsmFabric

end FlashGpuSim
