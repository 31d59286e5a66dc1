import FlashGpuSim.Dsm.FabricService
import Mathlib.Data.Finset.Card

/-!
The service of the CPCs in a cycle, counted. A CPC stays within its lanes, its routes and its
eligible SMs. It grants as many routes as it could, except when a turn is lost to a winner that
fails the credit test while a route without a turn has a winner that passes. A route that is won
in cycle after cycle gets its turn.
-/

namespace FlashGpuSim

open Lib

namespace DsmFabric

namespace CpcService

def grants (s : CpcService) : List Turn := s.turns.filter Turn.granted

/-- The winner of the route passes the credit test, at its turn or, without a turn, at the
end. -/
def passes (s : CpcService) (route : Nat) : Bool :=
  match s.winner route with
  | none => false
  | some sm =>
    match s.turns.find? (fun t => t.route == route) with
    | some t => t.granted
    | none => (s.requests.find? fun r => r.sm == sm).any s.after.grantable

def winners (s : CpcService) (numRoutes : Nat) : Finset Nat :=
  (Finset.range numRoutes).filter fun route => (s.winner route).isSome = true

def passing (s : CpcService) (numRoutes : Nat) : Finset Nat :=
  (Finset.range numRoutes).filter fun route => s.passes route = true

/-- The routes that pass and got no turn. -/
def missed (s : CpcService) (numRoutes : Nat) : Finset Nat :=
  (s.passing numRoutes).filter fun route => route ∉ s.turns.map Turn.route

/-- The bounds on the grants of a CPC in a cycle that starts in `f`. -/
structure Bounded (f : DsmFabric) (now : Nat) (s : CpcService) : Prop where
  lanes : s.grants.length ≤ f.cfg.lanesPerCpc
  routes : (s.grants.map Turn.route).Nodup
  sms : (s.grants.map fun t => t.request.sm).Nodup
  eligible : ∀ t ∈ s.grants, t.request.sm < f.n ∧ f.cpc t.request.sm = s.cpc ∧
    f.eligible now t.request.sm = true

/-- As many grants as there are lanes, or routes whose winner passes. -/
def WorkConserving (f : DsmFabric) (s : CpcService) : Prop :=
  s.grants.length = min f.cfg.lanesPerCpc (s.passing f.cfg.numRoutes).card

instance (f : DsmFabric) (s : CpcService) : Decidable (s.WorkConserving f) :=
  inferInstanceAs (Decidable (_ = _))

/-- No turn is lost to a stalled winner while a route without a turn could be granted. -/
def NoTurnLost (f : DsmFabric) (s : CpcService) : Prop :=
  (∀ t ∈ s.turns, t.granted = true) ∨
    ∀ route < f.cfg.numRoutes, route ∉ s.turns.map Turn.route → s.passes route = false

end CpcService

variable {base f g h f' : DsmFabric} {now cpc route sm : Nat} {reqs : List Request}
  {s : CpcService}

theorem CpcService.passes_won (hpass : s.passes route = true) :
    (s.winner route).isSome = true := by
  unfold CpcService.passes at hpass
  cases hwinner : s.winner route with
  | none =>
    rw [hwinner] at hpass
    cases hpass
  | some sm => rfl

section service

variable (hs : ServiceRight base g reqs s h)

include hs

theorem ServiceRight.find_turn {t : Turn} (ht : t ∈ s.turns) :
    s.turns.find? (fun u => u.route == t.route) = some t := by
  cases hfind : s.turns.find? (fun u => u.route == t.route) with
  | none =>
    have hnot := List.find?_eq_none.mp hfind t ht
    simp at hnot
  | some u =>
    have hroute := List.find?_some hfind
    rw [beq_iff_eq] at hroute
    rw [List.inj_on_of_nodup_map hs.turns.nodup (List.mem_of_find?_eq_some hfind) ht hroute]

theorem ServiceRight.passes_turn {t : Turn} (ht : t ∈ s.turns) :
    s.passes t.route = t.granted := by
  unfold CpcService.passes
  rw [(hs.turns.request t ht).2.2.2, hs.find_turn ht]

theorem ServiceRight.turn_of_granted :
    (s.passing base.cfg.numRoutes).filter (fun route => route ∈ s.turns.map Turn.route) =
      (s.grants.map Turn.route).toFinset := by
  ext route
  simp only [CpcService.passing, CpcService.grants, Finset.mem_filter, Finset.mem_range,
    List.mem_toFinset, List.mem_map, List.mem_filter]
  constructor
  · rintro ⟨⟨-, hpass⟩, t, ht, rfl⟩
    rw [hs.passes_turn ht] at hpass
    exact ⟨t, ⟨ht, hpass⟩, rfl⟩
  · rintro ⟨t, ⟨ht, hgranted⟩, rfl⟩
    refine ⟨⟨hs.turns.route_lt t ht, ?_⟩, t, ht, rfl⟩
    rw [hs.passes_turn ht]
    exact hgranted

theorem ServiceRight.grants_nodup : (s.grants.map Turn.route).Nodup :=
  hs.turns.nodup.sublist (List.Sublist.map _ List.filter_sublist)

/-- A route whose winner passes was granted or got no turn. -/
theorem ServiceRight.card_passing :
    (s.passing base.cfg.numRoutes).card =
      s.grants.length + (s.missed base.cfg.numRoutes).card := by
  have hsplit := Finset.card_filter_add_card_filter_not (s := s.passing base.cfg.numRoutes)
    fun route => route ∈ s.turns.map Turn.route
  rw [hs.turn_of_granted, List.toFinset_card_of_nodup hs.grants_nodup, List.length_map] at hsplit
  exact hsplit.symm

/-- A route that was passed over had a winner, and all lanes had a turn. -/
theorem ServiceRight.lanes_of_unturned (hroute : route < base.cfg.numRoutes)
    (hwon : (s.winner route).isSome = true) (hnot : route ∉ s.turns.map Turn.route) :
    s.turns.length = base.cfg.lanesPerCpc := by
  by_contra hne
  have hle := hs.turns.length_le
  exact hnot (hs.turns.complete (by omega) route hroute hwon)

/-- The count of the grants is right when no turn is lost, and only then. -/
theorem ServiceRight.grants_eq_iff :
    s.grants.length = min base.cfg.lanesPerCpc (s.passing base.cfg.numRoutes).card ↔
      (∀ t ∈ s.turns, t.granted = true) ∨
        ∀ route < base.cfg.numRoutes, route ∉ s.turns.map Turn.route → s.passes route = false := by
  have hle := hs.turns.length_le
  have hgrants : s.grants.length ≤ s.turns.length := List.length_filter_le _ _
  have hall : s.grants.length = s.turns.length ↔ ∀ t ∈ s.turns, t.granted = true :=
    List.length_filter_eq_length_iff
  have hmissed : (∀ route < base.cfg.numRoutes, route ∉ s.turns.map Turn.route →
      s.passes route = false) ↔ (s.missed base.cfg.numRoutes).card = 0 := by
    rw [Finset.card_eq_zero, Finset.eq_empty_iff_forall_notMem]
    constructor
    · intro hnone route hin
      simp only [CpcService.missed, CpcService.passing, Finset.mem_filter,
        Finset.mem_range] at hin
      rw [hnone route hin.1.1 hin.2] at hin
      cases hin.1.2
    · intro hnone route hroute hnot
      apply Bool.eq_false_of_not_eq_true
      intro hpass
      apply hnone route
      simp only [CpcService.missed, CpcService.passing, Finset.mem_filter, Finset.mem_range]
      exact ⟨⟨hroute, hpass⟩, hnot⟩
  rw [← hall, hmissed, hs.card_passing]
  rcases Nat.eq_zero_or_pos (s.missed base.cfg.numRoutes).card with hzero | hpos
  · rw [hzero]
    omega
  · obtain ⟨route, hin⟩ := Finset.card_pos.mp hpos
    simp only [CpcService.missed, CpcService.passing, Finset.mem_filter, Finset.mem_range] at hin
    have hlanes := hs.lanes_of_unturned hin.1.1 (CpcService.passes_won hin.1.2) hin.2
    omega

theorem ServiceRight.sms_nodup (hoff : Offered base reqs) :
    (s.grants.map fun t => t.request.sm).Nodup := by
  have hinj : ∀ t ∈ s.turns, ∀ u ∈ s.turns, t.request.sm = u.request.sm → t = u := by
    intro t ht u hu hsm
    obtain ⟨htr, -, htroute, -⟩ := hs.turns.request t ht
    obtain ⟨hur, -, huroute, -⟩ := hs.turns.request u hu
    have hreq := hoff.unique _ htr _ hur hsm
    apply List.inj_on_of_nodup_map hs.turns.nodup ht hu
    rw [← htroute, ← huroute, hreq]
  apply List.Nodup.map_on
  · intro t ht u hu
    exact hinj t (List.mem_of_mem_filter ht) u (List.mem_of_mem_filter hu)
  · exact (hs.turns.nodup.of_map _).filter _

/-- With a lane for every winner each of them gets its turn. -/
theorem ServiceRight.turn_of_few (hfew : (s.winners base.cfg.numRoutes).card ≤
    base.cfg.lanesPerCpc) (hroute : route < base.cfg.numRoutes)
    (hwon : (s.winner route).isSome = true) : ∃ t ∈ s.turns, t.route = route := by
  by_contra hnone
  have hnot : route ∉ s.turns.map Turn.route := by
    intro hin
    obtain ⟨t, ht, htr⟩ := List.mem_map.mp hin
    exact hnone ⟨t, ht, htr⟩
  have hlanes := hs.lanes_of_unturned hroute hwon hnot
  have hsub : insert route (s.turns.map Turn.route).toFinset ⊆
      s.winners base.cfg.numRoutes := by
    intro x hx
    simp only [CpcService.winners, Finset.mem_filter, Finset.mem_range]
    rcases Finset.mem_insert.mp hx with rfl | hx
    · exact ⟨hroute, hwon⟩
    · obtain ⟨t, ht, rfl⟩ := List.mem_map.mp (List.mem_toFinset.mp hx)
      exact ⟨hs.turns.route_lt t ht, hs.turns.was_ready t ht⟩
  have hcard := Finset.card_le_card hsub
  rw [Finset.card_insert_of_notMem (fun hin => hnot (List.mem_toFinset.mp hin)),
    List.toFinset_card_of_nodup hs.turns.nodup, List.length_map] at hcard
  omega

end service

/-- What a cycle does in each CPC, from the state before it. -/
theorem cycleTurns_services (hinv : f.Inv) {services : List CpcService}
    (hok : f.cycleTurns now = .ok (services, f')) (hs : s ∈ services) :
    ∃ g h, ServiceRight (f.shape now) g (f.shape now).collectRequests s h ∧
      g.cpcRr s.cpc = f.cpcRr s.cpc ∧ f'.cpcRr s.cpc = h.cpcRr s.cpc := by
  obtain ⟨hservices, -⟩ := (cycleTurns_spec hinv now).of_ok hok
  exact hservices.of_mem List.nodup_range hs

theorem ServiceRight.bounded (hinv : f.Inv)
    (hs : ServiceRight (f.shape now) g (f.shape now).collectRequests s h) : s.Bounded f now := by
  have hoff := collectRequests_offered (shape_inv hinv now)
  refine ⟨(List.length_filter_le _ _).trans hs.turns.length_le, hs.grants_nodup,
    hs.sms_nodup hoff, ?_⟩
  intro t ht
  obtain ⟨hreq, hcpc, -, -⟩ := hs.turns.request t (List.mem_of_mem_filter ht)
  obtain ⟨sm, hsm, helig, hhead⟩ := mem_collectRequests.mp hreq
  obtain ⟨rfl, -, -, -, hrc, -⟩ :=
    headRequest_spec (shape_inv hinv now).n_pos (shape_inv hinv now).routes_pos hhead
  refine ⟨hsm, hrc.symm.trans hcpc, ?_⟩
  have hsm' : t.request.sm < f.n := hsm
  simpa only [shape, if_pos hsm'] using helig

/-! ### Turns over several cycles -/

/-- An operation, with the services of the cycle it is. -/
def stepTurns (f : DsmFabric) : Op → Checked (List (List CpcService) × DsmFabric)
  | .cycle now => do
    let (services, f) ← f.cycleTurns now
    return ([services], f)
  | op => do
    let f ← f.step op
    return ([], f)

/-- A run, with the services of its cycles. -/
def runTurns : List Op → DsmFabric → Checked (List (List CpcService) × DsmFabric)
  | [], f => return ([], f)
  | op :: rest, f => do
    let (first, f) ← f.stepTurns op
    let (cycles, f) ← runTurns rest f
    return (first ++ cycles, f)

/-- In the cycle the SM wins the route of the CPC, and its head passes the credit test. -/
def Wins (services : List CpcService) (cpc route sm : Nat) : Prop :=
  ∃ s ∈ services, s.cpc = cpc ∧ s.winner route = some sm ∧ s.passes route = true

/-- In the cycle the SM is granted on the route. -/
def GrantedOn (services : List CpcService) (cpc route sm : Nat) : Prop :=
  ∃ s ∈ services, s.cpc = cpc ∧ ∃ t ∈ s.grants, t.route = route ∧ t.request.sm = sm

/-- A cycle in which a winner gets no turn moves the pointer of its CPC nearer to its route, by
as many places as there are lanes. -/
theorem cycle_nearer (hinv : f.Inv) {services : List CpcService}
    (hok : f.cycleTurns now = .ok (services, f')) (hroute : route < f.cfg.numRoutes)
    (hwins : Wins services cpc route sm) (hnot : ¬ GrantedOn services cpc route sm) :
    ahead f.cfg.numRoutes (f'.cpcRr cpc).next route + f.cfg.lanesPerCpc ≤
      ahead f.cfg.numRoutes (f.cpcRr cpc).next route := by
  obtain ⟨s, hs, rfl, hwinner, hpass⟩ := hwins
  obtain ⟨g, h, hright, hstart, hend⟩ := cycleTurns_services hinv hok hs
  have hwon : (s.winner route).isSome = true := by rw [hwinner]; rfl
  have hunturned : route ∉ s.turns.map Turn.route := by
    intro hin
    obtain ⟨t, ht, rfl⟩ := List.mem_map.mp hin
    rw [hright.passes_turn ht] at hpass
    have hsm := (hright.turns.request t ht).2.2.2
    rw [hwinner, Option.some.injEq] at hsm
    exact hnot ⟨s, hs, rfl, t, List.mem_filter.mpr ⟨ht, hpass⟩, rfl, hsm.symm⟩
  have hlanes := hright.lanes_of_unturned hroute hwon hunturned
  have hserves := hright.turns.serves route hroute hwon hunturned
  have hahead := hserves.ahead_le hroute rfl hunturned
  rw [hstart, ← hend, List.length_map, hlanes] at hahead
  exact hahead

/-- What an operation leaves as it is, apart from a cycle. -/
theorem stepTurns_spec (hinv : f.Inv) {op : Op} (hop : FreshOp op)
    {first : List (List CpcService)} (hok : f.stepTurns op = .ok (first, f')) :
    f'.Inv ∧ f'.cfg = f.cfg ∧ ((first = [] ∧ f'.cpcRr = f.cpcRr) ∨
      ∃ now services, first = [services] ∧ f.cycleTurns now = .ok (services, f')) := by
  cases op with
  | cycle now =>
    obtain ⟨⟨services, g⟩, hcycle, hrest⟩ := bind_eq_ok hok
    cases hrest
    obtain ⟨-, hsetup, hinv'⟩ := (cycleTurns_spec hinv now).of_ok hcycle
    exact ⟨hinv', hsetup.cfg, .inr ⟨now, services, rfl, hcycle⟩⟩
  | inject packet =>
    obtain ⟨g, hstep, hrest⟩ := bind_eq_ok hok
    cases hrest
    refine ⟨(step_inv hinv hop).of_ok hstep, ?_⟩
    simp only [step, inject_eq hinv] at hstep
    split at hstep
    · cases hstep
      exact ⟨rfl, .inl ⟨rfl, rfl⟩⟩
    · cases hstep
      exact ⟨rfl, .inl ⟨rfl, rfl⟩⟩
  | pop dst vc =>
    obtain ⟨g, hstep, hrest⟩ := bind_eq_ok hok
    cases hrest
    refine ⟨(step_inv hinv hop).of_ok hstep, ?_⟩
    simp only [step, pop_eq hinv] at hstep
    cases htop : f.top dst vc with
    | none =>
      rw [htop] at hstep
      cases hstep
      exact ⟨rfl, .inl ⟨rfl, rfl⟩⟩
    | some p =>
      rw [htop] at hstep
      cases hstep
      exact ⟨rfl, .inl ⟨rfl, rfl⟩⟩

/-- A winner that passes in every cycle of a run and is never granted is that much nearer to the
pointer at the end. -/
theorem runTurns_nearer {ops : List Op} (hinv : f.Inv) (hops : ∀ op ∈ ops, FreshOp op)
    {cycles : List (List CpcService)} (hok : runTurns ops f = .ok (cycles, f'))
    (hroute : route < f.cfg.numRoutes)
    (hwins : ∀ services ∈ cycles, Wins services cpc route sm)
    (hnot : ∀ services ∈ cycles, ¬ GrantedOn services cpc route sm) :
    ahead f.cfg.numRoutes (f'.cpcRr cpc).next route + cycles.length * f.cfg.lanesPerCpc ≤
      ahead f.cfg.numRoutes (f.cpcRr cpc).next route := by
  induction ops generalizing f cycles with
  | nil =>
    cases hok
    simp
  | cons op rest ih =>
    unfold runTurns at hok
    obtain ⟨⟨first, g⟩, hstep, hok⟩ := bind_eq_ok hok
    obtain ⟨⟨later, f''⟩, hrest, hok⟩ := bind_eq_ok hok
    cases hok
    obtain ⟨hinv', hcfg, hfirst⟩ := stepTurns_spec hinv (hops op List.mem_cons_self) hstep
    have hlater := ih hinv' (fun op hop => hops op (List.mem_cons_of_mem _ hop)) hrest
      (hcfg ▸ hroute) (fun services hin => hwins services (List.mem_append_right _ hin))
      (fun services hin => hnot services (List.mem_append_right _ hin))
    rw [hcfg] at hlater
    rcases hfirst with ⟨rfl, hrr⟩ | ⟨now, services, rfl, hcycle⟩
    · rw [hrr] at hlater
      exact hlater
    · have hin : services ∈ [services] ++ later := List.mem_append_left _ List.mem_cons_self
      have hnear := cycle_nearer hinv hcycle hroute (hwins services hin) (hnot services hin)
      rw [List.length_append, List.length_singleton, Nat.add_mul, Nat.one_mul]
      omega

variable {topo : GpuTopology} {gpc : Nat} {cfg : DsmFabricConfig}

/-- A cycle in which every turn is kept. -/
structure CycleServes (f : DsmFabric) (now : Nat) (services : List CpcService)
    (f' : DsmFabric) : Prop where
  watched : f.cycle now = .ok f'
  all : services.map CpcService.cpc = List.range f.cfg.cpcs
  bounded : ∀ s ∈ services, s.Bounded f now
  counts : ∀ s ∈ services, s.WorkConserving f ↔ s.NoTurnLost f
  few : ∀ s ∈ services, (s.winners f.cfg.numRoutes).card ≤ f.cfg.lanesPerCpc →
    s.NoTurnLost f ∧ ∀ route < f.cfg.numRoutes, s.passes route = true →
      route ∈ s.grants.map Turn.route

/-- A winner that passes in every cycle of a run is granted in one of them, when the lanes of
these cycles are as many as the routes. -/
def GrantsWinners (f : DsmFabric) : Prop :=
  ∀ ops cycles f', (∀ op ∈ ops, FreshOp op) → runTurns ops f = .ok (cycles, f') →
    ∀ cpc, ∀ route < f.cfg.numRoutes, ∀ sm,
      (∀ services ∈ cycles, Wins services cpc route sm) →
      f.cfg.numRoutes ≤ cycles.length * f.cfg.lanesPerCpc →
      ∃ services ∈ cycles, GrantedOn services cpc route sm

theorem cycle_serves_all (hinv : f.Inv) {services : List CpcService}
    (hok : f.cycleTurns now = .ok (services, f')) : CycleServes f now services f' := by
  refine ⟨?_, ?_, ?_, ?_, ?_⟩
  · rw [← cycleTurns_snd, hok]
    rfl
  · exact ((cycleTurns_spec hinv now).of_ok hok).1.map_cpc
  · intro s hs
    obtain ⟨g, h, hright, -⟩ := cycleTurns_services hinv hok hs
    exact hright.bounded hinv
  · intro s hs
    obtain ⟨g, h, hright, -⟩ := cycleTurns_services hinv hok hs
    exact hright.grants_eq_iff
  · intro s hs hfew
    obtain ⟨g, h, hright, -⟩ := cycleTurns_services hinv hok hs
    constructor
    · refine .inr fun route hroute hnot => ?_
      apply Bool.eq_false_of_not_eq_true
      intro hpass
      obtain ⟨t, ht, htr⟩ := hright.turn_of_few hfew hroute (CpcService.passes_won hpass)
      exact hnot (List.mem_map.mpr ⟨t, ht, htr⟩)
    · intro route hroute hpass
      obtain ⟨t, ht, rfl⟩ := hright.turn_of_few hfew hroute (CpcService.passes_won hpass)
      rw [hright.passes_turn ht] at hpass
      exact List.mem_map.mpr ⟨t, List.mem_filter.mpr ⟨ht, hpass⟩, rfl⟩

theorem grantsWinners (hinv : f.Inv) : f.GrantsWinners := by
  intro ops cycles f' hops hok cpc route hroute sm hwins hlong
  by_contra hnone
  have hnot : ∀ services ∈ cycles, ¬ GrantedOn services cpc route sm :=
    fun services hin hgranted => hnone ⟨services, hin, hgranted⟩
  have hnear := runTurns_nearer hinv hops hok hroute hwins hnot
  have hlt := ahead_lt (Nat.lt_of_le_of_lt (Nat.zero_le _) hroute) (f.cpcRr cpc).next route
  omega

/-- With one lane and two routes, after one packet for SM 2 that nobody popped: another packet
for SM 2 on the first route, and one for SM 3 on the second. -/
def lostTurnRun : List Op :=
  [.inject (mkPkt 0 2 .writeData 32 32), .cycle 1, .inject (mkPkt 0 2 .writeData 32 0),
    .inject (mkPkt 1 3 .writeData 32 0)]

/-- Every CPC makes as many grants as it could, as far as the cycle succeeds. -/
def countsRight (f : DsmFabric) (now : Nat) : Bool :=
  match f.cycleTurns now with
  | .ok r => r.1.all fun s => decide (s.WorkConserving f)
  | .error _ => true

end DsmFabric

end FlashGpuSim
