import FlashGpuSim.Dsm.FabricCycle

/-!
The arbitration around the grants. An SM offers one request a cycle and wins at
most one route with it, so the packet that was requested is still at the head of
its queue when the crossbar serves it.
-/

namespace FlashGpuSim

open Lib Relation

namespace RoundRobinArbiter

variable {rr : RoundRobinArbiter} {ready : Nat → Bool} {n : Nat}

/-- The arbiter grants some ready input whenever there is one. -/
theorem grant_spec (hn : n = rr.n) :
    Outcome (rr.grant ready n)
      (fun r => r.2.n = rr.n ∧ (∀ i, r.1 = some i → i < n ∧ ready i = true) ∧
        (r.1 = none → ∀ i, i < n → ready i = false))
      (fun _ => False) := by
  unfold grant
  apply outcome_bind
  apply outcome_require
  · intro _
    cases hfind : (List.range rr.n).find? (fun k => ready ((rr.next + k) % rr.n)) with
    | some k =>
      have hk : k < rr.n := List.mem_range.mp (List.mem_of_find?_eq_some hfind)
      refine ⟨rfl, ?_, by simp⟩
      intro i hi
      obtain rfl : (rr.next + k) % rr.n = i := Option.some.inj hi
      have hready := List.find?_some hfind
      exact ⟨hn ▸ Nat.mod_lt _ (by omega), hready⟩
    | none =>
      refine ⟨rfl, by simp, ?_⟩
      intro _ i hi
      rw [hn] at hi
      -- the offset at which the scan meets input `i`
      have hk : (i + rr.n - rr.next % rr.n) % rr.n < rr.n := Nat.mod_lt _ (by omega)
      have hnot := List.find?_eq_none.mp hfind _ (List.mem_range.mpr hk)
      have hmod : (rr.next + (i + rr.n - rr.next % rr.n) % rr.n) % rr.n = i := by
        have hlt : rr.next % rr.n < rr.n := Nat.mod_lt _ (by omega)
        rw [Nat.add_mod, Nat.mod_mod, ← Nat.add_mod, ← Nat.mod_add_mod,
          show rr.next % rr.n + (i + rr.n - rr.next % rr.n) = i + rr.n by omega,
          Nat.add_mod_right, Nat.mod_eq_of_lt hi]
      rw [hmod] at hnot
      simpa using hnot
  · intro hc
    rw [hn] at hc
    simp at hc

end RoundRobinArbiter

namespace DsmFabric

variable {f f' f'' : DsmFabric} {now : Nat} {r : Request} {reqs : List Request}

/-- `f'` has the configuration, the clock and the shaper state of `f`. -/
structure SameSetup (f f' : DsmFabric) : Prop where
  cfg : f'.cfg = f.cfg
  n : f'.n = f.n
  shaper : f'.shaper = f.shaper
  indexIsSlot : f'.indexIsSlot = f.indexIsSlot
  rspPriority : f'.rspPriority = f.rspPriority
  now : f'.now = f.now
  nextPktId : f'.nextPktId = f.nextPktId
  cpc : f'.cpc = f.cpc
  slot : f'.slot = f.slot
  hrcAcc : f'.hrcAcc = f.hrcAcc
  lastEligible : f'.lastEligible = f.lastEligible

theorem SameSetup.refl (f : DsmFabric) : SameSetup f f :=
  ⟨rfl, rfl, rfl, rfl, rfl, rfl, rfl, rfl, rfl, rfl, rfl⟩

theorem SameSetup.trans (h : SameSetup f f') (h' : SameSetup f' f'') : SameSetup f f'' :=
  ⟨h'.cfg.trans h.cfg, h'.n.trans h.n, h'.shaper.trans h.shaper,
    h'.indexIsSlot.trans h.indexIsSlot, h'.rspPriority.trans h.rspPriority,
    h'.now.trans h.now, h'.nextPktId.trans h.nextPktId, h'.cpc.trans h.cpc,
    h'.slot.trans h.slot, h'.hrcAcc.trans h.hrcAcc, h'.lastEligible.trans h.lastEligible⟩

/-- The invariant of the fabric: its queues and credits, and the widths its
arbiters were built with. -/
structure Inv (f : DsmFabric) : Prop where
  buffers : f.toFabricBuffers.WF f.n f.cfg
  n_pos : 0 < f.n
  lanes_pos : 0 < f.cfg.lanesPerCpc
  routes_pos : 0 < f.cfg.numRoutes
  routeRr_width : ∀ slot, (f.routeRr slot).n = f.n
  cpcRr_width : ∀ cpc, (f.cpcRr cpc).n = f.cfg.numRoutes

/-! ### One grant -/

/-- The credit test of `serve`, for the requested head and its multicast group. -/
def grantable (f : DsmFabric) (r : Request) : Bool :=
  ((f.voq r.vc r.sm).front r.dst).any fun selected =>
    f.hasEjectionSpace r.vc r.sm (f.multicastDsts f.n r selected)

/-- What serving `r` does: nothing when the credit test fails, and otherwise at
least one flit is sent, all by moves of the SM of `r` on the VC of `r`. -/
structure Served (now : Nat) (r : Request) (f f' : DsmFabric) : Prop where
  moves : FabricBuffers.GrantMoves f.n now r.vc r.sm f.toFabricBuffers f'.toFabricBuffers
  setup : SameSetup f f'
  routeRr : f'.routeRr = f.routeRr
  cpcRr : f'.cpcRr = f.cpcRr
  stalled : f.grantable r = false → f' = f
  progress : f.grantable r = true → f.granted.length < f'.granted.length

theorem multicastDsts_nodup (b : FabricBuffers) (n : Nat) (r : Request)
    (selected : DsmPacket) : (b.multicastDsts n r selected).Nodup := by
  unfold FabricBuffers.multicastDsts
  refine List.nodup_cons.mpr ⟨?_, ?_⟩
  · split
    · simp
    · simp [List.mem_filter]
  · split
    · exact List.nodup_nil
    · exact List.nodup_range.filter _

/-- Every destination of a grant is in range and has a queued head. -/
theorem multicastDsts_head {b : FabricBuffers} {n : Nat} {selected : DsmPacket} {dst : Nat}
    (hdst : r.dst < n) (hne : b.queue r.vc r.sm r.dst ≠ [])
    (hmem : dst ∈ b.multicastDsts n r selected) :
    dst < n ∧ b.queue r.vc r.sm dst ≠ [] := by
  unfold FabricBuffers.multicastDsts at hmem
  rcases List.mem_cons.mp hmem with rfl | hmem
  · exact ⟨hdst, hne⟩
  · split at hmem
    · simp at hmem
    · obtain ⟨hrange, hcand⟩ := List.mem_filter.mp hmem
      refine ⟨List.mem_range.mp hrange, fun hnil => ?_⟩
      rw [FabricBuffers.front_eq_head, hnil] at hcand
      simp at hcand

theorem serve_spec (hinv : f.Inv) (hsm : r.sm < f.n) (hdst : r.dst < f.n)
    (hne : f.queue r.vc r.sm r.dst ≠ []) :
    Outcome (f.serve now r) (Served now r f) f.FlitFailure := by
  obtain ⟨selected, rest, hq⟩ := List.exists_cons_of_ne_nil hne
  have hfront : (f.voq r.vc r.sm).front r.dst = some selected := by
    rw [FabricBuffers.front_eq_head, hq]
    rfl
  have hgrantable : f.grantable r =
      f.hasEjectionSpace r.vc r.sm (f.multicastDsts f.n r selected) := by
    simp [grantable, hfront]
  unfold serve
  rw [hfront]
  simp only
  by_cases hspace :
      f.hasEjectionSpace r.vc r.sm (f.multicastDsts f.n r selected) = true
  · rw [if_pos hspace]
    have hnodup := multicastDsts_nodup f.toFabricBuffers f.n r selected
    have hheads : ∀ d ∈ f.multicastDsts f.n r selected, d < f.n ∧
        ∃ p rest, f.queue r.vc r.sm d = p :: rest ∧ f.creditTest r.vc d p = true := by
      intro d hd
      obtain ⟨hdn, hdne⟩ := multicastDsts_head hdst hne hd
      obtain ⟨p, tail, hdq⟩ := List.exists_cons_of_ne_nil hdne
      have htest := List.all_eq_true.mp hspace d hd
      rw [FabricBuffers.front_eq_head, hdq] at htest
      exact ⟨hdn, p, tail, hdq, htest⟩
    apply outcome_bind
    refine (FabricBuffers.reserveHeads_spec now hinv.buffers hsm hnodup
      hheads).mono ?_ (fun _ hfalse => hfalse.elim)
    rintro b ⟨hmoves, hgr, hready⟩
    apply outcome_bind
    have hcap := FabricBuffers.packetCap_pos f.cfg.flitPayloadBytes
      (f.multicastDsts f.n r selected).length selected
    refine (FabricBuffers.grantLoop_spec now _ hcap ?_ (hmoves.wf hinv.buffers) hsm
      hnodup (by simp [FabricBuffers.multicastDsts])
      (fun d hd => ⟨(hheads d hd).1, hready d hd⟩)).mono ?_
      (fun e he => hmoves.flitFailure he)
    · -- only a single destination lets the loop go around again
      intro hmany
      have hone := FabricBuffers.packetCap_single _ _ _ hmany
      obtain ⟨d, hd⟩ := List.length_eq_one_iff.mp hone
      have hhead : (f.multicastDsts f.n r selected).head? = some r.dst := rfl
      rw [hd] at hhead ⊢
      simpa using hhead
    · rintro b' ⟨hmoves', hlt⟩
      refine ⟨hmoves.trans hmoves', ⟨rfl, rfl, rfl, rfl, rfl, rfl, rfl, rfl, rfl, rfl, rfl⟩,
        rfl, rfl, ?_, ?_⟩
      · intro hno
        rw [hgrantable, hspace] at hno
        cases hno
      · intro _
        rw [← hgr]
        exact hlt
  · rw [if_neg hspace]
    refine ⟨.refl, SameSetup.refl f, rfl, rfl, fun _ => rfl, ?_⟩
    intro hyes
    rw [hgrantable] at hyes
    exact absurd hyes hspace

theorem Served.inv (h : Served now r f f') (hinv : f.Inv) : f'.Inv where
  buffers := by
    rw [h.setup.n, h.setup.cfg]
    exact h.moves.wf hinv.buffers
  n_pos := by rw [h.setup.n]; exact hinv.n_pos
  lanes_pos := by rw [h.setup.cfg]; exact hinv.lanes_pos
  routes_pos := by rw [h.setup.cfg]; exact hinv.routes_pos
  routeRr_width := by rw [h.routeRr, h.setup.n]; exact hinv.routeRr_width
  cpcRr_width := by rw [h.cpcRr, h.setup.cfg]; exact hinv.cpcRr_width

/-! ### The requests of a cycle -/

theorem peekDst_spec {sm dst : Nat} {vc : DsmVc} (hn : 0 < f.n)
    (h : f.peekDst sm vc = some dst) : dst < f.n ∧ f.queue vc sm dst ≠ [] := by
  unfold peekDst at h
  have hmem := List.mem_of_find?_eq_some h
  have hsome := List.find?_some h
  obtain ⟨k, -, rfl⟩ := List.mem_map.mp hmem
  refine ⟨Nat.mod_lt _ hn, fun hnil => ?_⟩
  have hq : (f.voq vc sm).q ((f.dstNext vc sm + k) % f.n) = [] := hnil
  simp [BoundedVoq.empty, hq] at hsome

theorem pickHead_peek {sm dst : Nat} {vc : DsmVc} (h : f.pickHead sm = some (vc, dst)) :
    f.peekDst sm vc = some dst := by
  unfold pickHead at h
  split at h
  · cases h
  · rename_i req hreq _
    cases h
    exact hreq
  · rename_i rsp _ hrsp
    cases h
    exact hrsp
  · rename_i req rsp hreq hrsp
    split at h
    · cases h
      exact hrsp
    · cases h
      exact hreq

/-- A request names the head that `pick_head` chose. -/
theorem headRequest_spec {sm : Nat} (hn : 0 < f.n) (hroutes : 0 < f.cfg.numRoutes)
    (h : f.headRequest sm = some r) :
    r.sm = sm ∧ f.pickHead sm = some (r.vc, r.dst) ∧ r.dst < f.n ∧
      f.queue r.vc sm r.dst ≠ [] ∧ r.cpc = f.cpc sm ∧ r.route < f.cfg.numRoutes := by
  unfold headRequest at h
  obtain ⟨⟨vc, dst⟩, hpick, h⟩ := Option.bind_eq_some_iff.mp h
  obtain ⟨p, -, h⟩ := Option.bind_eq_some_iff.mp h
  obtain rfl := Option.some.inj h
  obtain ⟨hdst, hne⟩ := peekDst_spec hn (pickHead_peek hpick)
  exact ⟨rfl, hpick, hdst, hne, rfl, Nat.mod_lt _ hroutes⟩

/-- What the arbitration relies on: requests name queued heads, their routes are
in range, and no SM makes two of them. -/
structure Offered (base : DsmFabric) (reqs : List Request) : Prop where
  sm_lt : ∀ r ∈ reqs, r.sm < base.n
  dst_lt : ∀ r ∈ reqs, r.dst < base.n
  queued : ∀ r ∈ reqs, base.queue r.vc r.sm r.dst ≠ []
  route_lt : ∀ r ∈ reqs, r.route < base.cfg.numRoutes
  unique : ∀ r ∈ reqs, ∀ r' ∈ reqs, r.sm = r'.sm → r = r'

theorem mem_collectRequests :
    r ∈ f.collectRequests ↔
      ∃ sm, sm < f.n ∧ f.lastEligible sm = true ∧ f.headRequest sm = some r := by
  unfold collectRequests
  rw [List.mem_filterMap]
  constructor
  · rintro ⟨sm, hsm, h⟩
    split at h
    · rename_i helig
      exact ⟨sm, List.mem_range.mp hsm, helig, h⟩
    · cases h
  · rintro ⟨sm, hsm, helig, h⟩
    exact ⟨sm, List.mem_range.mpr hsm, by rw [if_pos helig]; exact h⟩

theorem collectRequests_offered (hinv : f.Inv) : Offered f f.collectRequests := by
  have hspec : ∀ r ∈ f.collectRequests, r.sm < f.n ∧ f.headRequest r.sm = some r ∧
      r.dst < f.n ∧ f.queue r.vc r.sm r.dst ≠ [] ∧ r.route < f.cfg.numRoutes := by
    intro r hr
    obtain ⟨sm, hsm, -, hhead⟩ := mem_collectRequests.mp hr
    obtain ⟨rfl, -, hdst, hne, -, hroute⟩ :=
      headRequest_spec hinv.n_pos hinv.routes_pos hhead
    exact ⟨hsm, hhead, hdst, hne, hroute⟩
  refine ⟨fun r hr => (hspec r hr).1, fun r hr => (hspec r hr).2.2.1,
    fun r hr => (hspec r hr).2.2.2.1, fun r hr => (hspec r hr).2.2.2.2, ?_⟩
  intro r hr r' hr' hsm
  have h := (hspec r hr).2.1
  rw [hsm, (hspec r' hr').2.1] at h
  exact (Option.some.inj h).symm

/-! ### The loops of the arbitration -/

/-- A property of the state that the loops of `cycle` keep: arbiters may move on
and requests may be served. `fail` is what it allows the loops to stop at. -/
structure LoopInvariant (now : Nat) (reqs : List Request) (base : DsmFabric)
    (holds : DsmFabric → Prop) (fail : Assertion → Prop) : Prop where
  setup : ∀ g, holds g → SameSetup base g
  inv : ∀ g, holds g → g.Inv
  arbiters : ∀ g routeRr cpcRr, holds g →
    ({ g with routeRr := routeRr, cpcRr := cpcRr } : DsmFabric).Inv →
    holds { g with routeRr := routeRr, cpcRr := cpcRr }
  served : ∀ g g' r, holds g → r ∈ reqs → r.cpc < base.cfg.cpcs → Served now r g g' →
    holds g'
  failure : ∀ g e, holds g → g.FlitFailure e → fail e

/-- The requests selected by `which` still find their head queued. -/
def Waiting (reqs : List Request) (which : Request → Prop) (g : DsmFabric) : Prop :=
  ∀ r ∈ reqs, which r → g.queue r.vc r.sm r.dst ≠ []

variable {base g : DsmFabric} {holds : DsmFabric → Prop} {fail : Assertion → Prop}
  {cpc : Nat}

theorem Inv.setRouteRr (h : g.Inv) (slot : Nat) (rr : RoundRobinArbiter)
    (hrr : rr.n = (g.routeRr slot).n) :
    ({ g with routeRr := Function.update g.routeRr slot rr } : DsmFabric).Inv where
  buffers := h.buffers
  n_pos := h.n_pos
  lanes_pos := h.lanes_pos
  routes_pos := h.routes_pos
  routeRr_width := by
    intro slot'
    by_cases hs : slot' = slot
    · subst hs
      simp only [Function.update_self]
      rw [hrr]
      exact h.routeRr_width slot'
    · simp only [Function.update_of_ne hs]
      exact h.routeRr_width slot'
  cpcRr_width := h.cpcRr_width

theorem Inv.setCpcRr (h : g.Inv) (cpc : Nat) (rr : RoundRobinArbiter)
    (hrr : rr.n = (g.cpcRr cpc).n) :
    ({ g with cpcRr := Function.update g.cpcRr cpc rr } : DsmFabric).Inv where
  buffers := h.buffers
  n_pos := h.n_pos
  lanes_pos := h.lanes_pos
  routes_pos := h.routes_pos
  routeRr_width := h.routeRr_width
  cpcRr_width := by
    intro cpc'
    by_cases hs : cpc' = cpc
    · subst hs
      simp only [Function.update_self]
      rw [hrr]
      exact h.cpcRr_width cpc'
    · simp only [Function.update_of_ne hs]
      exact h.cpcRr_width cpc'

/-- A route that has a winner was requested by it. -/
def WinnersRequested (reqs : List Request) (cpc : Nat) (winner : Nat → Option Nat) : Prop :=
  ∀ route sm, winner route = some sm →
    ∃ r ∈ reqs, r.cpc = cpc ∧ r.route = route ∧ r.sm = sm

/-- The route arbitration gives every requested route a winner that requested it,
and changes nothing but arbiters. -/
theorem arbitrateRoutes_spec (hloop : LoopInvariant now reqs base holds fail)
    (hoff : Offered base reqs) (hg : holds g) (which : Request → Prop)
    (hwait : Waiting reqs which g) :
    Outcome (g.arbitrateRoutes reqs cpc)
      (fun s => holds s.1 ∧ Waiting reqs which s.1 ∧ WinnersRequested reqs cpc s.2 ∧
        ∀ r ∈ reqs, r.cpc = cpc → (s.2 r.route).isSome)
      fail := by
  have hsetup := hloop.setup g hg
  let inv : List Nat → DsmFabric × (Nat → Option Nat) → Prop := fun todo s =>
    holds s.1 ∧ Waiting reqs which s.1 ∧ WinnersRequested reqs cpc s.2 ∧
      ∀ r ∈ reqs, r.cpc = cpc → r.route ∉ todo → (s.2 r.route).isSome
  have hrun : Outcome (g.arbitrateRoutes reqs cpc) (inv []) fail := by
    unfold arbitrateRoutes
    apply outcome_foldlM inv
    · rintro route rest ⟨h, winner⟩ ⟨hh, hw, hwin, hdone⟩
      by_cases hany : reqs.any (fun r => r.cpc == cpc && r.route == route) = true
      · simp only [hany, if_true]
        apply outcome_bind
        have hwidth : h.n = (h.routeRr (cpc * h.cfg.numRoutes + route)).n :=
          ((hloop.inv h hh).routeRr_width _).symm
        refine (RoundRobinArbiter.grant_spec hwidth).mono ?_ (fun _ hf => hf.elim)
        rintro ⟨win, rr⟩ ⟨hrr, hsome, hnone⟩
        have hinv' := (hloop.inv h hh).setRouteRr _ rr hrr
        refine ⟨hloop.arbiters h _ h.cpcRr hh hinv', hw, ?_, ?_⟩
        · intro route' sm hsm
          by_cases hroute : route' = route
          · subst hroute
            simp only [Function.update_self] at hsm
            have hready := (hsome sm hsm).2
            simp only [List.any_eq_true, Bool.and_eq_true, beq_iff_eq] at hready
            obtain ⟨r, hr, ⟨hrc, hrr⟩, hrs⟩ := hready
            exact ⟨r, hr, hrc, hrr, hrs⟩
          · simp only [Function.update_of_ne hroute] at hsm
            exact hwin route' sm hsm
        · intro r hr hrc hnot
          by_cases hroute : r.route = route
          · simp only [hroute, Function.update_self]
            -- the requesting SM itself is ready, so the arbiter found someone
            cases hwin' : win with
            | some sm => rfl
            | none =>
              have hidle := hnone hwin' r.sm (by
                rw [(hloop.setup h hh).n]
                exact hoff.sm_lt r hr)
              have hready : reqs.any (fun q => q.cpc == cpc && q.route == route &&
                  q.sm == r.sm) = true :=
                List.any_eq_true.mpr ⟨r, hr, by simp [hrc, hroute]⟩
              rw [hready] at hidle
              cases hidle
          · simp only [Function.update_of_ne hroute]
            exact hdone r hr hrc (by simp [hroute, hnot])
      · simp only [hany]
        refine ⟨hh, hw, hwin, ?_⟩
        intro r hr hrc hnot
        by_cases hroute : r.route = route
        · refine absurd (List.any_eq_true.mpr ⟨r, hr, ?_⟩) hany
          simp [hrc, hroute]
        · exact hdone r hr hrc (by simp [hroute, hnot])
    · refine ⟨hg, hwait, (fun _ _ h => nomatch h), ?_⟩
      intro r hr _ hnot
      refine absurd (List.mem_range.mpr ?_) hnot
      rw [hsetup.cfg]
      exact hoff.route_lt r hr
  refine hrun.imp ?_
  rintro s ⟨hh, hw, hwin, hdone⟩
  exact ⟨hh, hw, hwin, fun r hr hrc => hdone r hr hrc (by simp)⟩

/-- The requests the crossbar of `cpc` may still serve, with those of the CPCs
that come later. -/
def Pending (later : Nat → Prop) (cpc : Nat) (ready : Nat → Bool) (r : Request) : Prop :=
  later r.cpc ∨ (r.cpc = cpc ∧ ready r.route = true)

/-- Serving the winner of a route leaves the heads of all other pending requests
in place, because they belong to other SMs. -/
theorem waiting_served {later : Nat → Prop} {ready : Nat → Bool} {g' : DsmFabric}
    (hoff : Offered base reqs) (hcpc : ¬ later cpc) (hr : r ∈ reqs) (hrc : r.cpc = cpc)
    (hw : Waiting reqs (Pending later cpc ready) g) (hserved : Served now r g g') :
    Waiting reqs (Pending later cpc (Function.update ready r.route false)) g' := by
  intro q hq hpend
  have hpend' : Pending later cpc ready q := by
    rcases hpend with hlater | ⟨hqc, hready⟩
    · exact .inl hlater
    · by_cases hroute : q.route = r.route
      · rw [hroute, Function.update_self] at hready
        cases hready
      · rw [Function.update_of_ne hroute] at hready
        exact .inr ⟨hqc, hready⟩
  have hsm : q.sm ≠ r.sm := by
    intro hsame
    obtain rfl := hoff.unique q hq r hr hsame
    rcases hpend with hlater | ⟨-, hready⟩
    · exact hcpc (hrc ▸ hlater)
    · rw [Function.update_self] at hready
      cases hready
  rw [hserved.moves.queue_other (fun hc => hsm hc.2)]
  exact hw q hq hpend'

theorem Waiting.drop_route {later : Nat → Prop} {ready : Nat → Bool} {route : Nat}
    (hw : Waiting reqs (Pending later cpc ready) g) :
    Waiting reqs (Pending later cpc (Function.update ready route false)) g := by
  intro q hq hpend
  refine hw q hq ?_
  rcases hpend with hlater | ⟨hqc, hready⟩
  · exact .inl hlater
  · by_cases hroute : q.route = route
    · rw [hroute, Function.update_self] at hready
      cases hready
    · rw [Function.update_of_ne hroute] at hready
      exact .inr ⟨hqc, hready⟩

/-- One grant of the crossbar. Either no route is ready, or the chosen route has
no winner, or the winner's request is served. -/
theorem crossbar_succ (hloop : LoopInvariant now reqs base holds fail)
    (hoff : Offered base reqs) {later : Nat → Prop} {winner : Nat → Option Nat}
    (hwin : WinnersRequested reqs cpc winner) {left : Nat} {ready : Nat → Bool}
    (hg : holds g) (hw : Waiting reqs (Pending later cpc ready) g)
    {post : DsmFabric → Prop}
    (hidle : ∀ h, holds h → Waiting reqs (Pending later cpc ready) h →
      (∀ route, route < base.cfg.numRoutes → ready route = false) → post h)
    (hskip : ∀ h route, holds h → Waiting reqs (Pending later cpc ready) h →
      ready route = true → winner route = none →
      Outcome (crossbar now reqs cpc winner left h (Function.update ready route false))
        post fail)
    (hserve : ∀ h h' r, holds h → Waiting reqs (Pending later cpc ready) h → r ∈ reqs →
      r.cpc = cpc → Served now r h h' →
      Outcome (crossbar now reqs cpc winner left h' (Function.update ready r.route false))
        post fail) :
    Outcome (crossbar now reqs cpc winner (left + 1) g ready) post fail := by
  have hinv := hloop.inv g hg
  unfold crossbar
  apply outcome_bind
  refine (RoundRobinArbiter.grant_spec (hinv.cpcRr_width cpc).symm).mono ?_
    (fun _ hf => hf.elim)
  rintro ⟨granted, rr⟩ ⟨hrr, hsome, hnone⟩
  have hg' := hloop.arbiters g g.routeRr _ hg (hinv.setCpcRr cpc rr hrr)
  cases granted with
  | none =>
    refine hidle _ hg' hw (fun route hroute => hnone rfl route ?_)
    rw [(hloop.setup g hg).cfg]
    exact hroute
  | some route =>
    have hready := (hsome route rfl).2
    cases hwinner : winner route with
    | none => simpa only [hwinner] using hskip _ route hg' hw hready hwinner
    | some sm =>
      obtain ⟨r, hr, hrc, hrroute, hrsm⟩ := hwin route sm hwinner
      cases hfind : reqs.find? (fun r => r.sm == sm) with
      | none =>
        have hnot := List.find?_eq_none.mp hfind r hr
        simp [hrsm] at hnot
      | some q =>
        -- an SM makes one request, so the one that is found won the route
        have hqsm := List.find?_some hfind
        simp only [beq_iff_eq] at hqsm
        obtain rfl := hoff.unique q (List.mem_of_find?_eq_some hfind) r hr
          (hqsm.trans hrsm.symm)
        have hpend : Pending later cpc ready q := .inr ⟨hrc, by rw [hrroute]; exact hready⟩
        have hsetup := hloop.setup _ hg'
        simp only [hwinner, hfind]
        apply outcome_bind
        refine (serve_spec (hloop.inv _ hg') (hsetup.n ▸ hoff.sm_lt q hr)
          (hsetup.n ▸ hoff.dst_lt q hr) (hw q hr hpend)).mono ?_
          (fun e he => hloop.failure _ e hg' he)
        intro g' hserved
        rw [← hrroute]
        exact hserve _ g' q hg' hw hr hrc hserved

/-- The crossbar keeps a loop invariant. The induction is on the grants left. -/
theorem crossbar_rule (hloop : LoopInvariant now reqs base holds fail)
    (hoff : Offered base reqs) {later : Nat → Prop} (hcpc : ¬ later cpc)
    (hin : cpc < base.cfg.cpcs)
    {winner : Nat → Option Nat} (hwin : WinnersRequested reqs cpc winner)
    (left : Nat) (g : DsmFabric) (ready : Nat → Bool) (hg : holds g)
    (hw : Waiting reqs (Pending later cpc ready) g) :
    Outcome (crossbar now reqs cpc winner left g ready)
      (fun g' => holds g' ∧ Waiting reqs (fun r => later r.cpc) g') fail := by
  have hend : ∀ h ready, holds h → Waiting reqs (Pending later cpc ready) h →
      holds h ∧ Waiting reqs (fun r => later r.cpc) h :=
    fun h _ hh hwh => ⟨hh, fun q hq hlater => hwh q hq (.inl hlater)⟩
  induction left generalizing g ready with
  | zero => exact hend g ready hg hw
  | succ left ih =>
    apply crossbar_succ hloop hoff hwin hg hw
    · exact fun h hh hwh _ => hend h ready hh hwh
    · exact fun h route hh hwh _ _ => ih h _ hh hwh.drop_route
    · exact fun h h' r hh hwh hr hrc hserved =>
        ih h' _ (hloop.served h h' r hh hr (hrc ▸ hin) hserved)
          (waiting_served hoff hcpc hr hrc hwh hserved)

variable {holds' : DsmFabric → Prop}

/-- When a route is ready, the crossbar serves a request. What one service brings
about from a state where the first invariant holds, holds at the end. -/
theorem crossbar_serves (hloop : LoopInvariant now reqs base holds fail)
    (hloop' : LoopInvariant now reqs base holds' fail)
    (hfirst : ∀ g g' r, holds g → r ∈ reqs → Served now r g g' → holds' g')
    (hoff : Offered base reqs) {later : Nat → Prop} (hcpc : ¬ later cpc)
    (hin : cpc < base.cfg.cpcs)
    {winner : Nat → Option Nat} (hwin : WinnersRequested reqs cpc winner)
    {left : Nat} (hg : holds g) {ready : Nat → Bool}
    (hw : Waiting reqs (Pending later cpc ready) g)
    (hwon : ∀ route, ready route = true → (winner route).isSome)
    {route : Nat} (hroute : route < base.cfg.numRoutes) (hready : ready route = true) :
    Outcome (crossbar now reqs cpc winner (left + 1) g ready)
      (fun g' => holds' g' ∧ Waiting reqs (fun r => later r.cpc) g') fail := by
  apply crossbar_succ hloop hoff hwin hg hw
  · intro h _ _ hidle
    rw [hidle route hroute] at hready
    cases hready
  · intro h route' _ _ hready' hnone
    have hsome := hwon route' hready'
    rw [hnone] at hsome
    cases hsome
  · exact fun h h' r hh hwh hr hrc hserved =>
      crossbar_rule hloop' hoff hcpc hin hwin left h' _ (hfirst h h' r hh hr hserved)
        (waiting_served hoff hcpc hr hrc hwh hserved)

theorem serveCpc_rule (hloop : LoopInvariant now reqs base holds fail)
    (hoff : Offered base reqs) {later : Nat → Prop} (hcpc : ¬ later cpc)
    (hin : cpc < base.cfg.cpcs) (hg : holds g)
    (hw : Waiting reqs (fun r => r.cpc = cpc ∨ later r.cpc) g) :
    Outcome (serveCpc now reqs g cpc)
      (fun g' => holds g' ∧ Waiting reqs (fun r => later r.cpc) g') fail := by
  unfold serveCpc
  apply outcome_bind
  refine (arbitrateRoutes_spec hloop hoff hg _ hw).imp ?_
  rintro ⟨h, winner⟩ ⟨hh, hwh, hwin, -⟩
  refine crossbar_rule hloop hoff hcpc hin hwin _ h _ hh ?_
  intro q hq hpend
  refine hwh q hq ?_
  rcases hpend with hlater | ⟨hqc, -⟩
  · exact .inr hlater
  · exact .inl hqc

theorem serveCpc_serves (hloop : LoopInvariant now reqs base holds fail)
    (hloop' : LoopInvariant now reqs base holds' fail)
    (hfirst : ∀ g g' r, holds g → r ∈ reqs → Served now r g g' → holds' g')
    (hoff : Offered base reqs) {later : Nat → Prop} (hcpc : ¬ later cpc)
    (hin : cpc < base.cfg.cpcs) (hg : holds g)
    (hw : Waiting reqs (fun r => r.cpc = cpc ∨ later r.cpc) g)
    (hr : r ∈ reqs) (hrc : r.cpc = cpc) :
    Outcome (serveCpc now reqs g cpc)
      (fun g' => holds' g' ∧ Waiting reqs (fun r => later r.cpc) g') fail := by
  unfold serveCpc
  apply outcome_bind
  refine (arbitrateRoutes_spec hloop hoff hg _ hw).imp ?_
  rintro ⟨h, winner⟩ ⟨hh, hwh, hwin, hall⟩
  obtain ⟨lanes, hlanes⟩ := Nat.exists_eq_add_of_lt (hloop.inv h hh).lanes_pos
  simp only [hlanes, Nat.zero_add]
  refine crossbar_serves hloop hloop' hfirst hoff hcpc hin hwin hh ?_
    (fun route hready => hready) (hoff.route_lt r hr) (hall r hr hrc)
  intro q hq hpend
  refine hwh q hq ?_
  rcases hpend with hlater | ⟨hqc, -⟩
  · exact .inr hlater
  · exact .inl hqc

/-! ### The cycle -/

theorem shape_inv (hinv : f.Inv) (now : Nat) : (f.shape now).Inv :=
  ⟨hinv.buffers, hinv.n_pos, hinv.lanes_pos, hinv.routes_pos, hinv.routeRr_width,
    hinv.cpcRr_width⟩

/-- A loop invariant that holds after the shaper holds at the end of the cycle. -/
theorem cycle_rule (hinv : f.Inv)
    (hloop : LoopInvariant now (f.shape now).collectRequests (f.shape now) holds fail)
    (hinit : holds (f.shape now)) : Outcome (f.cycle now) holds fail := by
  have hoff := collectRequests_offered (shape_inv hinv now)
  let inv : List Nat → DsmFabric → Prop := fun todo g =>
    (todo.Nodup ∧ ∀ c ∈ todo, c < f.cfg.cpcs) ∧ holds g ∧
      Waiting (f.shape now).collectRequests (fun r => r.cpc ∈ todo) g
  have hrun : Outcome (f.cycle now) (inv []) fail := by
    unfold cycle
    apply outcome_foldlM inv
    · rintro cpc rest g ⟨⟨hnd, hlt⟩, hg, hw⟩
      obtain ⟨hnotin, hnodup⟩ := List.nodup_cons.mp hnd
      have hin : cpc < f.cfg.cpcs := hlt cpc List.mem_cons_self
      have hnd' : rest.Nodup ∧ ∀ c ∈ rest, c < f.cfg.cpcs :=
        ⟨hnodup, fun c hc => hlt c (List.mem_cons_of_mem cpc hc)⟩
      refine (serveCpc_rule hloop hoff hnotin hin hg ?_).imp ?_
      · intro q hq hc
        exact hw q hq (List.mem_cons.mpr hc)
      · exact fun g' hg' => ⟨hnd', hg'⟩
    · exact ⟨⟨List.nodup_range, fun c hc => List.mem_range.mp hc⟩, hinit, fun q hq _ => hoff.queued q hq⟩
  exact hrun.imp (fun g hg => hg.2.1)

/-- With a request from a CPC that the cycle visits, some request is served. -/
theorem cycle_serves (hinv : f.Inv)
    (hloop : LoopInvariant now (f.shape now).collectRequests (f.shape now) holds fail)
    (hloop' : LoopInvariant now (f.shape now).collectRequests (f.shape now) holds' fail)
    (hfirst : ∀ g g' r, holds g → r ∈ (f.shape now).collectRequests →
      Served now r g g' → holds' g')
    (hinit : holds (f.shape now)) (hr : r ∈ (f.shape now).collectRequests)
    (hrc : r.cpc < f.cfg.cpcs) : Outcome (f.cycle now) holds' fail := by
  have hoff := collectRequests_offered (shape_inv hinv now)
  let inv : List Nat → DsmFabric → Prop := fun todo g =>
    (todo.Nodup ∧ ∀ c ∈ todo, c < f.cfg.cpcs) ∧ (if r.cpc ∈ todo then holds g else holds' g) ∧
      Waiting (f.shape now).collectRequests (fun r => r.cpc ∈ todo) g
  have hrun : Outcome (f.cycle now) (inv []) fail := by
    unfold cycle
    apply outcome_foldlM inv
    · rintro cpc rest g ⟨⟨hnd, hlt⟩, hg, hw⟩
      obtain ⟨hnotin, hnodup⟩ := List.nodup_cons.mp hnd
      have hin : cpc < f.cfg.cpcs := hlt cpc List.mem_cons_self
      have hnd' : rest.Nodup ∧ ∀ c ∈ rest, c < f.cfg.cpcs :=
        ⟨hnodup, fun c hc => hlt c (List.mem_cons_of_mem cpc hc)⟩
      have hw' : Waiting (f.shape now).collectRequests
          (fun r => r.cpc = cpc ∨ r.cpc ∈ rest) g :=
        fun q hq hc => hw q hq (List.mem_cons.mpr hc)
      by_cases hcpc : r.cpc = cpc
      · rw [if_pos (by simp [hcpc])] at hg
        have hdone : ¬ r.cpc ∈ rest := hcpc ▸ hnotin
        refine (serveCpc_serves hloop hloop' hfirst hoff hnotin
          hin hg hw' hr hcpc).imp ?_
        exact fun g' hg' => ⟨hnd', by rw [if_neg hdone]; exact hg'.1, hg'.2⟩
      · by_cases hrest : r.cpc ∈ rest
        · rw [if_pos (by simp [hrest])] at hg
          refine (serveCpc_rule hloop hoff hnotin hin hg hw').imp ?_
          exact fun g' hg' => ⟨hnd', by rw [if_pos hrest]; exact hg'.1, hg'.2⟩
        · rw [if_neg (by simp [hcpc, hrest])] at hg
          refine (serveCpc_rule hloop' hoff hnotin hin hg hw').imp ?_
          exact fun g' hg' => ⟨hnd', by rw [if_neg hrest]; exact hg'.1, hg'.2⟩
    · refine ⟨⟨List.nodup_range, fun c hc => List.mem_range.mp hc⟩, ?_, fun q hq _ => hoff.queued q hq⟩
      have hmem : r.cpc ∈ List.range (f.shape now).cfg.cpcs := List.mem_range.mpr hrc
      rw [if_pos hmem]
      exact hinit
  refine hrun.imp ?_
  rintro g ⟨-, hg, -⟩
  rw [if_neg (by simp)] at hg
  exact hg

end DsmFabric

end FlashGpuSim
