import FlashGpuSim.Dsm.FabricTurns

/-!
How many grants a CPC makes in a cycle. Every winner of a route that gets a turn gets only one,
and `lanes_per_cpc` turns are all there are; a turn of a winner that fails the credit test is
lost. The turns go round robin over the routes, so a route that is won in every cycle gets one.
-/

namespace FlashGpuSim

open Lib

namespace RoundRobinArbiter

variable {rr : RoundRobinArbiter} {ready : Nat → Bool} {n : Nat}

/-- The arbiter grants the first ready input from its pointer on, and then points past it. -/
theorem grant_nearest (hn : n = rr.n) :
    Outcome (rr.grant ready n)
      (fun r => ∀ i, r.1 = some i → r.2.next = (i + 1) % n ∧
        ∀ x < n, ready x = true → ahead n rr.next i ≤ ahead n rr.next x)
      (fun _ => False) := by
  subst hn
  unfold grant
  apply outcome_bind
  apply outcome_require
  · intro _
    cases hfind : (List.range rr.n).find? (fun k => ready ((rr.next + k) % rr.n)) with
    | none =>
      intro i hi
      cases hi
    | some k =>
      intro i hi
      obtain rfl : (rr.next + k) % rr.n = i := Option.some.inj hi
      obtain ⟨-, hmem, hfirst⟩ := List.find?_range_eq_some.mp hfind
      have hk := List.mem_range.mp hmem
      refine ⟨rfl, fun x hx hready => ?_⟩
      rw [Nat.add_comm rr.next k, ahead_place hk]
      by_contra hlt
      have hnot := hfirst (ahead rr.n rr.next x) (by omega)
      rw [Nat.add_comm, place_ahead hx, hready] at hnot
      cases hnot
  · intro hc
    simp at hc

end RoundRobinArbiter

namespace DsmFabric

variable {base f g h : DsmFabric} {now cpc left : Nat} {reqs : List Request}
  {winner : Nat → Option Nat} {ready : Nat → Bool} {turns : List Turn}

/-- What the turns of a crossbar say about the routes that were ready. -/
structure TurnsRight (base g : DsmFabric) (reqs : List Request) (cpc : Nat)
    (winner : Nat → Option Nat) (ready : Nat → Bool) (left : Nat) (turns : List Turn)
    (h : DsmFabric) : Prop where
  setup : SameSetup base h
  inv : h.Inv
  otherRr : ∀ c, c ≠ cpc → h.cpcRr c = g.cpcRr c
  length_le : turns.length ≤ left
  route_lt : ∀ t ∈ turns, t.route < base.cfg.numRoutes
  was_ready : ∀ t ∈ turns, ready t.route = true
  request : ∀ t ∈ turns, t.request ∈ reqs ∧ t.request.cpc = cpc ∧ t.request.route = t.route ∧
    winner t.route = some t.request.sm
  nodup : (turns.map Turn.route).Nodup
  complete : turns.length < left → ∀ route < base.cfg.numRoutes, ready route = true →
    route ∈ turns.map Turn.route
  serves : ∀ route < base.cfg.numRoutes, ready route = true → route ∉ turns.map Turn.route →
    Serves base.cfg.numRoutes (· = route) (g.cpcRr cpc).next (turns.map Turn.route)
      (h.cpcRr cpc).next

theorem crossbarTurns_spec (hoff : Offered base reqs) {later : Nat → Prop} (hcpc : ¬ later cpc)
    (hwin : WinnersRequested reqs cpc winner)
    (left : Nat) (g : DsmFabric) (ready : Nat → Bool) (hsetup : SameSetup base g) (hinv : g.Inv)
    (hw : Waiting reqs (Pending later cpc ready) g)
    (hwon : ∀ route, ready route = true → (winner route).isSome) :
    Outcome (crossbarTurns now reqs cpc winner left g ready)
      (fun r => TurnsRight base g reqs cpc winner ready left r.1 r.2 ∧
        Waiting reqs (fun r => later r.cpc) r.2) (fun _ => True) := by
  induction left generalizing g ready with
  | zero =>
    refine ⟨⟨hsetup, hinv, fun _ _ => rfl, Nat.le_refl _, ?_, ?_, ?_, List.nodup_nil, ?_, ?_⟩,
      fun q hq hlater => hw q hq (.inl hlater)⟩
    · intro t ht
      cases ht
    · intro t ht
      cases ht
    · intro t ht
      cases ht
    · intro hlt
      cases hlt
    · exact fun _ _ _ _ => .nil _
  | succ left ih =>
    unfold crossbarTurns
    have hwidth : g.cfg.numRoutes = (g.cpcRr cpc).n := (hinv.cpcRr_width cpc).symm
    have hroutes : g.cfg.numRoutes = base.cfg.numRoutes := by rw [hsetup.cfg]
    apply outcome_bind
    refine ((RoundRobinArbiter.grant_spec hwidth).and
      (RoundRobinArbiter.grant_nearest hwidth)).mono ?_ (fun _ _ => trivial)
    rintro ⟨granted, rr⟩ ⟨⟨hrr, hsome, hnone⟩, hnear⟩
    have hinv' := hinv.setCpcRr cpc rr hrr
    have hother : ∀ c, c ≠ cpc → Function.update g.cpcRr cpc rr c = g.cpcRr c :=
      fun c hc => Function.update_of_ne hc _ _
    have hsetup' : SameSetup base { g with cpcRr := Function.update g.cpcRr cpc rr } :=
      hsetup.trans ⟨rfl, rfl, rfl, rfl, rfl, rfl, rfl, rfl, rfl, rfl, rfl⟩
    cases granted with
    | none =>
      have hidle : ∀ route < base.cfg.numRoutes, ready route = true → False := by
        intro route hroute hready
        rw [hnone rfl route (hroutes ▸ hroute)] at hready
        cases hready
      refine ⟨⟨hsetup', hinv', hother, Nat.zero_le _, ?_, ?_, ?_, List.nodup_nil, ?_, ?_⟩,
        fun q hq hlater => hw q hq (.inl hlater)⟩
      · intro t ht
        cases ht
      · intro t ht
        cases ht
      · intro t ht
        cases ht
      · exact fun _ route hroute hready => (hidle route hroute hready).elim
      · exact fun route hroute hready => (hidle route hroute hready).elim
    | some route =>
      obtain ⟨hlt, hready⟩ := hsome route rfl
      obtain ⟨hnext, hfirst⟩ := hnear route rfl
      obtain ⟨sm, hsm⟩ := Option.isSome_iff_exists.mp (hwon route hready)
      obtain ⟨r, hr, hrc, hrroute, hrsm⟩ := hwin route sm hsm
      dsimp only
      rw [hsm]
      cases hfind : reqs.find? (fun r => r.sm == sm) with
      | none =>
        have hnot := List.find?_eq_none.mp hfind r hr
        simp [hrsm] at hnot
      | some q =>
        have hqsm := List.find?_some hfind
        simp only [beq_iff_eq] at hqsm
        obtain rfl := hoff.unique q (List.mem_of_find?_eq_some hfind) r hr
          (hqsm.trans hrsm.symm)
        have hpend : Pending later cpc ready q := .inr ⟨hrc, by rw [hrroute]; exact hready⟩
        simp only [hfind]
        apply outcome_bind
        refine (serve_spec hinv' (hsetup'.n ▸ hoff.sm_lt q hr)
          (hsetup'.n ▸ hoff.dst_lt q hr) (hw q hr hpend)).mono ?_ (fun _ _ => trivial)
        intro g' hserved
        have hstep : ∀ x, Function.update ready route false x = true →
            x ≠ route ∧ ready x = true := by
          intro x hx
          rcases eq_or_ne x route with rfl | hne
          · rw [Function.update_self] at hx
            cases hx
          · rw [Function.update_of_ne hne] at hx
            exact ⟨hne, hx⟩
        have hw' : Waiting reqs (Pending later cpc ready)
            { g with cpcRr := Function.update g.cpcRr cpc rr } := hw
        have hwaiting := waiting_served hoff hcpc hr hrc hw' hserved
        rw [hrroute] at hwaiting
        apply outcome_bind
        refine (ih g' (Function.update ready route false) (hsetup'.trans hserved.setup)
          (hserved.inv hinv') hwaiting (fun x hx => hwon x (hstep x hx).2)).imp ?_
        rintro ⟨turns, h⟩ ⟨hturns, hlater⟩
        refine ⟨⟨hturns.setup, hturns.inv, ?_, ?_, ?_, ?_, ?_, ?_, ?_, ?_⟩, hlater⟩
        · intro c hc
          rw [hturns.otherRr c hc, hserved.cpcRr]
          exact hother c hc
        · exact Nat.succ_le_succ hturns.length_le
        · intro t ht
          rcases List.mem_cons.mp ht with rfl | ht
          · exact hroutes ▸ hlt
          · exact hturns.route_lt t ht
        · intro t ht
          rcases List.mem_cons.mp ht with rfl | ht
          · exact hready
          · exact (hstep _ (hturns.was_ready t ht)).2
        · intro t ht
          rcases List.mem_cons.mp ht with rfl | ht
          · exact ⟨hr, hrc, hrroute, by rw [hsm, hrsm]⟩
          · exact hturns.request t ht
        · rw [List.map_cons, List.nodup_cons]
          refine ⟨fun hmem => ?_, hturns.nodup⟩
          obtain ⟨t, ht, htr⟩ := List.mem_map.mp hmem
          exact (hstep _ (hturns.was_ready t ht)).1 htr
        · intro hshort x hx hxready
          rw [List.map_cons, List.mem_cons]
          rcases eq_or_ne x route with rfl | hne
          · exact .inl rfl
          · refine .inr (hturns.complete (Nat.lt_of_succ_lt_succ hshort) x hx ?_)
            rw [Function.update_of_ne hne]
            exact hxready
        · intro x hx hxready hxnot
          rw [List.map_cons, List.mem_cons, not_or] at hxnot
          have hrest := hturns.serves x hx (by
            rw [Function.update_of_ne hxnot.1]
            exact hxready) hxnot.2
          have hpoint : (g'.cpcRr cpc).next = (route + 1) % base.cfg.numRoutes := by
            rw [hserved.cpcRr, ← hroutes, ← hnext]
            exact congrArg RoundRobinArbiter.next (Function.update_self ..)
          rw [hpoint] at hrest
          rw [List.map_cons]
          refine .cons (hroutes ▸ hlt) ?_ hrest
          rintro y hy rfl
          rw [← hroutes] at hy ⊢
          exact hfirst y hy hxready

/-- The arbitration of the routes does not touch the pointers of the crossbars. -/
theorem arbitrateRoutes_cpcRr (f : DsmFabric) (reqs : List Request) (cpc : Nat) :
    Outcome (f.arbitrateRoutes reqs cpc) (fun s => s.1.cpcRr = f.cpcRr) (fun _ => True) := by
  unfold arbitrateRoutes
  apply outcome_foldlM fun _ (s : DsmFabric × (Nat → Option Nat)) => s.1.cpcRr = f.cpcRr
  · rintro route rest ⟨g, winner⟩ hg
    dsimp only
    split
    · apply outcome_bind
      apply outcome_of_ok_imp
      intro result _
      exact hg
    · exact hg
  · rfl

/-- The invariant of the fabric through the loops of a cycle. -/
theorem keptInvariant (now : Nat) (reqs : List Request) (base : DsmFabric) :
    LoopInvariant now reqs base (fun g => SameSetup base g ∧ g.Inv) (fun _ => True) where
  setup _ h := h.1
  inv _ h := h.2
  arbiters _ _ _ h hinv := ⟨h.1.trans ⟨rfl, rfl, rfl, rfl, rfl, rfl, rfl, rfl, rfl, rfl, rfl⟩, hinv⟩
  served _ _ _ h _ _ hserved := ⟨h.1.trans hserved.setup, hserved.inv h.2⟩
  failure _ _ _ _ := trivial

/-- A service of a CPC that goes from `g` to `h`. -/
structure ServiceRight (base g : DsmFabric) (reqs : List Request) (s : CpcService)
    (h : DsmFabric) : Prop where
  requests : s.requests = reqs
  after : s.after = h
  won : WinnersRequested reqs s.cpc s.winner
  turns : TurnsRight base g reqs s.cpc s.winner (fun route => (s.winner route).isSome)
    base.cfg.lanesPerCpc s.turns h

theorem serveCpcTurns_spec (hoff : Offered base reqs) {later : Nat → Prop} (hcpc : ¬ later cpc)
    (hsetup : SameSetup base g) (hinv : g.Inv)
    (hw : Waiting reqs (fun r => r.cpc = cpc ∨ later r.cpc) g) :
    Outcome (serveCpcTurns now reqs g cpc)
      (fun r => r.1.cpc = cpc ∧ ServiceRight base g reqs r.1 r.2 ∧
        Waiting reqs (fun r => later r.cpc) r.2) (fun _ => True) := by
  unfold serveCpcTurns
  apply outcome_bind
  refine ((arbitrateRoutes_spec (keptInvariant now reqs base) hoff ⟨hsetup, hinv⟩ _ hw).and
    (arbitrateRoutes_cpcRr g reqs cpc)).mono ?_ (fun _ _ => trivial)
  rintro ⟨g', winner⟩ ⟨⟨⟨hsetup', hinv'⟩, hw', hwin, -⟩, hrr⟩
  have hwaiting : Waiting reqs (Pending later cpc fun route => (winner route).isSome) g' := by
    intro q hq hpend
    refine hw' q hq ?_
    rcases hpend with hlater | ⟨hqc, -⟩
    · exact .inr hlater
    · exact .inl hqc
  dsimp only at hrr hsetup' ⊢
  apply outcome_bind
  rw [hsetup'.cfg]
  refine (crossbarTurns_spec hoff hcpc hwin _ g' _ hsetup' hinv' hwaiting fun _ h => h).imp ?_
  rintro ⟨turns, h⟩ ⟨hturns, hlater⟩
  refine ⟨rfl, ⟨rfl, rfl, hwin, ?_⟩, hlater⟩
  exact { hturns with
    otherRr := fun c hc => (hturns.otherRr c hc).trans (congrFun hrr c)
    serves := fun route hroute hready hnot => by
      rw [← congrFun hrr cpc]
      exact hturns.serves route hroute hready hnot }

/-- The services of the CPCs of a list, one after the other. -/
inductive Services (base : DsmFabric) (reqs : List Request) :
    List Nat → DsmFabric → List CpcService → DsmFabric → Prop
  | nil (g : DsmFabric) : Services base reqs [] g [] g
  | cons {rest : List Nat} {g g' h : DsmFabric} {s : CpcService} {services : List CpcService} :
      ServiceRight base g reqs s g' → Services base reqs rest g' services h →
      Services base reqs (s.cpc :: rest) g (s :: services) h

theorem serveCpcs_spec (hoff : Offered base reqs) {todo : List Nat} (hnodup : todo.Nodup)
    (hsetup : SameSetup base g) (hinv : g.Inv) (hw : Waiting reqs (fun r => r.cpc ∈ todo) g) :
    Outcome (serveCpcs now reqs todo g)
      (fun r => Services base reqs todo g r.1 r.2 ∧ SameSetup base r.2 ∧ r.2.Inv)
      (fun _ => True) := by
  induction todo generalizing g with
  | nil => exact ⟨.nil g, hsetup, hinv⟩
  | cons cpc rest ih =>
    obtain ⟨hnotin, hrest⟩ := List.nodup_cons.mp hnodup
    unfold serveCpcs
    apply outcome_bind
    have hw' : Waiting reqs (fun r => r.cpc = cpc ∨ r.cpc ∈ rest) g :=
      fun q hq hc => hw q hq (List.mem_cons.mpr hc)
    have hlater : ¬ (fun c => c ∈ rest) cpc := hnotin
    refine (serveCpcTurns_spec hoff hlater hsetup hinv hw').imp ?_
    rintro ⟨s, g'⟩ ⟨rfl, hs, hw'⟩
    apply outcome_bind
    refine (ih hrest hs.turns.setup hs.turns.inv hw').imp ?_
    rintro ⟨services, h⟩ ⟨hservices, hsetup', hinv'⟩
    exact ⟨.cons hs hservices, hsetup', hinv'⟩

theorem cycleTurns_spec (hinv : f.Inv) (now : Nat) :
    Outcome (f.cycleTurns now)
      (fun r => Services (f.shape now) (f.shape now).collectRequests (List.range f.cfg.cpcs)
        (f.shape now) r.1 r.2 ∧ SameSetup (f.shape now) r.2 ∧ r.2.Inv) (fun _ => True) := by
  have hoff := collectRequests_offered (shape_inv hinv now)
  exact serveCpcs_spec hoff List.nodup_range (SameSetup.refl _) (shape_inv hinv now)
    fun q hq _ => hoff.queued q hq

variable {services : List CpcService} {todo : List Nat} {s : CpcService}

theorem Services.map_cpc (hs : Services base reqs todo g services h) :
    services.map CpcService.cpc = todo := by
  induction hs with
  | nil g => rfl
  | cons _ _ ih => rw [List.map_cons, ih]

/-- The services of other CPCs leave the pointer of a crossbar where it is. -/
theorem Services.otherRr (hs : Services base reqs todo g services h) {c : Nat} (hc : c ∉ todo) :
    h.cpcRr c = g.cpcRr c := by
  induction hs with
  | nil g => rfl
  | cons hright _ ih =>
    obtain ⟨hne, hrest⟩ := List.ne_and_not_mem_of_not_mem_cons hc
    rw [ih hrest]
    exact hright.turns.otherRr c hne

/-- Each CPC is served from its own pointer to its own pointer. -/
theorem Services.of_mem (hs : Services base reqs todo g services h) (hnodup : todo.Nodup)
    (hmem : s ∈ services) :
    ∃ g' h', ServiceRight base g' reqs s h' ∧ g'.cpcRr s.cpc = g.cpcRr s.cpc ∧
      h.cpcRr s.cpc = h'.cpcRr s.cpc := by
  induction hs with
  | nil g => cases hmem
  | @cons rest g g' h s' services hright hrest ih =>
    obtain ⟨hnotin, hnodup⟩ := List.nodup_cons.mp hnodup
    rcases List.mem_cons.mp hmem with rfl | hmem
    · exact ⟨g, g', hright, rfl, hrest.otherRr hnotin⟩
    · have hin : s.cpc ∈ rest := by
        rw [← hrest.map_cpc]
        exact List.mem_map.mpr ⟨s, hmem, rfl⟩
      have hne : s.cpc ≠ s'.cpc := fun heq => hnotin (heq ▸ hin)
      obtain ⟨g'', h'', hright', hstart, hend⟩ := ih hnodup hmem
      exact ⟨g'', h'', hright', hstart.trans (hright.turns.otherRr _ hne), hend⟩

end DsmFabric

end FlashGpuSim
