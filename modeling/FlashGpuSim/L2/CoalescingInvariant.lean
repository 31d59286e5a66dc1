import FlashGpuSim.L2.Convoys

/-!
What holds of the coalescer and of the response queues in every reachable state. Each
convoy gathers behind its master, leaves in order, or is gone; the moves of requests between
the stations of the sub-partition keep this.
-/

namespace FlashGpuSim

open Lib

namespace SubPartition

variable {cfg : SubPartitionConfig} {c c' : SubPartition cfg} {hand hand' : List L2Fetch}
  {m m' mf r x h : L2Fetch}

def isTma (mf : L2Fetch) : Bool := decide (mf.accessType = .tmaAccR)

def ropItems (c : SubPartition cfg) : List L2Fetch :=
  c.ropLocal.map RopEntry.item ++ c.ropRemote.map RopEntry.item

/-- The TMA reads that L2 has or has had, each at its station. -/
def stations (c : SubPartition cfg) : List L2Fetch :=
  c.icntL2Queue.filter isTma ++ c.inService.filter isTma ++ c.l2IcntQueue.filter isTma ++
    deliveries c.log

/-- The reads released behind `h`. -/
def tail (c : SubPartition cfg) (h : L2Fetch) : List L2Fetch := (c.responseWaiters h).getD []

/-- A convoy gathers while its master is unanswered; then it leaves one by one, the one at
`h` next; then it is gone. -/
inductive Phase (c : SubPartition cfg) (m : L2Fetch) : Prop
  | gathering (g : CoalescerGroup L2Fetch NewAddrType) (hgroup : c.coalescer.groups m = some g)
      (haddr : g.address = m.sectorAddr) (hconvoy : convoy c.log m = m :: g.waiters)
      (hplace : m ∈ c.icntL2Queue ∨ m ∈ c.inService)
      (hfresh : ∀ r ∈ g.waiters, r ∉ c.stations) (hunanswered : L2Event.responded m ∉ c.log)
  | leaving (before : List L2Fetch) (h : L2Fetch) (waiting : List L2Fetch)
      (hgroup : c.coalescer.groups m = none)
      (hconvoy : convoy c.log m = before ++ h :: waiting) (hhead : h ∈ c.l2IcntQueue)
      (htail : c.tail h = waiting) (hdelivered : deliveredOf c.log m = before)
      (hfresh : ∀ r ∈ waiting, r ∉ c.stations) (hresponded : L2Event.responded m ∈ c.log)
  | gone (hgroup : c.coalescer.groups m = none) (hdelivered : deliveredOf c.log m = convoy c.log m)
      (hresponded : L2Event.responded m ∈ c.log)

/-- The requests in `hand` are between two stations. -/
structure Coalescing (c : SubPartition cfg) (hand : List L2Fetch) : Prop where
  ids : ∀ x ∈ hand ++ c.ropItems ++ admitted c.log, x.id < c.nextId
  arrivals : (hand ++ c.ropItems ++ admitted c.log).Nodup
  stations : c.stations.Nodup
  known : ∀ x ∈ c.stations, x ∈ admitted c.log
  responses : ∀ x, L2Event.responded x ∈ c.log → isTma x = true → x ∈ admitted c.log
  masters : ∀ m, IsMaster c.log m → c.Phase m
  groups : ∀ m g, c.coalescer.groups m = some g → IsMaster c.log m
  tails : ∀ h q, c.responseWaiters h = some q →
    q ≠ [] ∧ h ∈ c.l2IcntQueue ∧ ∃ m, IsMaster c.log m ∧ h ∈ convoy c.log m
  joined : ∀ r m, L2Event.joined r m ∈ c.log → IsMaster c.log m ∧ r.isTmaSector = true
  active : ∀ a m, c.coalescer.activeMaster a = some m →
    (∃ g, c.coalescer.groups m = some g) ∧ Current c.log m a
  room : c.l2IcntQueue.length ≤ cfg.l2IcntLength
  joins : ∀ l₁ l₂ r m, c.log = l₁ ++ .joined r m :: l₂ → Current l₁ m r.sectorAddr
  behind : ∀ l₁ l₂ x m, c.log = l₁ ++ .delivered x :: l₂ → IsMaster c.log m →
    x ∈ convoy c.log m → L2Event.responded m ∈ l₁
  within : ∀ x ∈ hand ++ c.ropItems, x.WithinSector

/-! ### Histories that grow -/

section Append

variable {log : List L2Event} {e : L2Event}

theorem admitted_none (he : e.admitted? = none) : admitted (log ++ [e]) = admitted log :=
  filterMap_concat_none he

theorem admitted_some (he : e.admitted? = some x) : admitted (log ++ [e]) = admitted log ++ [x] :=
  filterMap_concat_some he

theorem convoy_none (he : e.joinedTo? m = none) : convoy (log ++ [e]) m = convoy log m :=
  congrArg _ (filterMap_concat_none he)

theorem convoy_joined : convoy (log ++ [L2Event.joined r m]) m = convoy log m ++ [r] :=
  congrArg _ (filterMap_concat_some (L2Event.joinedTo?_eq_some.mpr rfl))

theorem joinedTo?_ne (hm : m' ≠ m) : (L2Event.joined r m').joinedTo? m = none := if_neg hm

theorem deliveries_none (he : e.deliveredTma? = none) : deliveries (log ++ [e]) = deliveries log :=
  filterMap_concat_none he

theorem isMaster_concat : IsMaster (log ++ [e]) m ↔
    IsMaster log m ∨ (e = .entered m ∧ m.isTmaSector = true) := by
  unfold IsMaster
  rw [List.mem_append, List.mem_singleton, or_and_right]
  exact or_congr_right (and_congr_left' eq_comm)

theorem deliveredOf_congr {log' : List L2Event} (hconvoy : convoy log' m = convoy log m)
    (hdeliveries : deliveries log' = deliveries log) : deliveredOf log' m = deliveredOf log m := by
  unfold deliveredOf
  rw [hdeliveries]
  simp only [hconvoy]

end Append

theorem isTma_of_sector (h : mf.isTmaSector = true) : isTma mf = true :=
  decide_eq_true (L2Fetch.isTmaSector_iff.mp h).2.2.1

theorem Coalescing.admitted_nodup (h : c.Coalescing hand) : (admitted c.log).Nodup :=
  (List.nodup_append.mp h.arrivals).2.1

theorem Coalescing.isTma_convoy (h : c.Coalescing hand) (hm : IsMaster c.log m)
    (hx : x ∈ convoy c.log m) : isTma x = true := by
  rcases mem_convoy.mp hx with rfl | hx
  · exact isTma_of_sector hm.2
  · exact isTma_of_sector (h.joined x m hx).2

/-- A request in hand is not admitted and at no station. -/
theorem Coalescing.hand_fresh (h : c.Coalescing hand) (hx : x ∈ hand) :
    x ∉ admitted c.log ∧ x ∉ c.stations := by
  have hnot : x ∉ admitted c.log := by
    intro hadmitted
    have hdisjoint := (List.nodup_append.mp h.arrivals).2.2
    exact hdisjoint x (List.mem_append_left _ hx) x hadmitted rfl
  exact ⟨hnot, fun hstation => hnot (h.known x hstation)⟩

theorem mem_deliveries {log : List L2Event} (hx : L2Event.delivered x ∈ log)
    (htma : isTma x = true) : x ∈ deliveries log :=
  List.mem_filterMap.mpr ⟨_, hx, if_pos (of_decide_eq_true htma)⟩

theorem delivered_station {l₁ l₂ : List L2Event} (hlog : c.log = l₁ ++ .delivered x :: l₂)
    (htma : isTma x = true) : x ∈ c.stations := by
  refine List.mem_append_right _ (mem_deliveries ?_ htma)
  rw [hlog]
  exact List.mem_append_right _ List.mem_cons_self

/-- What does not touch a convoy leaves it where it is. -/
theorem Phase.frame (hphase : c.Phase m)
    (hgroup : c'.coalescer.groups m = c.coalescer.groups m)
    (hconvoy : convoy c'.log m = convoy c.log m)
    (hdelivered : deliveredOf c'.log m = deliveredOf c.log m)
    (hplace : m ∈ c.icntL2Queue ∨ m ∈ c.inService → m ∈ c'.icntL2Queue ∨ m ∈ c'.inService)
    (hhead : ∀ h ∈ convoy c.log m, h ∈ c.l2IcntQueue → h ∈ c'.l2IcntQueue ∧ c'.tail h = c.tail h)
    (hfresh : ∀ r ∈ convoy c.log m, r ∉ c.stations → r ∉ c'.stations)
    (hresponded : L2Event.responded m ∈ c'.log ↔ L2Event.responded m ∈ c.log) : c'.Phase m := by
  cases hphase with
  | gathering g hg haddr hlist hpl hfr hun =>
    refine .gathering g (hgroup.trans hg) haddr (hconvoy.trans hlist) (hplace hpl) ?_
      (fun hr => hun (hresponded.mp hr))
    intro r hr
    refine hfresh r ?_ (hfr r hr)
    rw [hlist]
    exact List.mem_cons_of_mem _ hr
  | leaving before h waiting hg hlist hh ht hd hfr hre =>
    have hmem : h ∈ convoy c.log m := by
      rw [hlist]
      exact List.mem_append_right _ List.mem_cons_self
    refine .leaving before h waiting (hgroup.trans hg) (hconvoy.trans hlist) (hhead h hmem hh).1
      ((hhead h hmem hh).2.trans ht) (hdelivered.trans hd) ?_ (hresponded.mpr hre)
    intro r hr
    refine hfresh r ?_ (hfr r hr)
    rw [hlist]
    exact List.mem_append_right _ (List.mem_cons_of_mem _ hr)
  | gone hg hd hre =>
    exact .gone (hgroup.trans hg) (hdelivered.trans (hd.trans hconvoy.symm)) (hresponded.mpr hre)

/-! ### In the delay stage -/

theorem Coalescing.move (h : c.Coalescing hand) {ropLocal ropRemote : List RopEntry} {n : Nat}
    (hc' : c' = { c with ropLocal := ropLocal, ropRemote := ropRemote, nextSequence := n })
    (hperm : (hand' ++ c'.ropItems).Perm (hand ++ c.ropItems)) : c'.Coalescing hand' := by
  subst hc'
  exact
  { ids := fun x hx => h.ids x ((hperm.append_right _).mem_iff.mp hx)
    arrivals := ((hperm.append_right _).nodup_iff).mpr h.arrivals
    stations := h.stations
    known := h.known
    responses := h.responses
    masters := fun m hm => (h.masters m hm).frame rfl rfl rfl id (fun _ _ hh => ⟨hh, rfl⟩)
      (fun _ _ hr => hr) Iff.rfl
    groups := h.groups
    tails := h.tails
    joined := h.joined
    active := h.active
    room := h.room
    joins := h.joins
    behind := h.behind
    within := fun x hx => h.within x (hperm.mem_iff.mp hx) }

/-- New requests are handed over. -/
theorem Coalescing.receive (h : c.Coalescing []) {n : Nat} (hc' : c' = { c with nextId := n })
    (hn : c.nextId ≤ n) (hids : ∀ x ∈ hand, c.nextId ≤ x.id ∧ x.id < n) (hnodup : hand.Nodup)
    (hwithin : ∀ x ∈ hand, x.WithinSector) : c'.Coalescing hand := by
  subst hc'
  constructor
  · intro x hx
    rw [List.append_assoc, List.mem_append] at hx
    rcases hx with hx | hx
    · exact (hids x hx).2
    · exact (h.ids x hx).trans_le hn
  · rw [List.append_assoc, List.nodup_append]
    refine ⟨hnodup, h.arrivals, ?_⟩
    rintro x hx y hy rfl
    have hlt := h.ids x hy
    have hle := (hids x hx).1
    omega
  · exact h.stations
  · exact h.known
  · exact h.responses
  · exact fun m hm => (h.masters m hm).frame rfl rfl rfl id (fun _ _ hh => ⟨hh, rfl⟩)
      (fun _ _ hr => hr) Iff.rfl
  · exact h.groups
  · exact h.tails
  · exact h.joined
  · exact h.active
  · exact h.room
  · exact h.joins
  · exact h.behind
  · intro x hx
    rcases List.mem_append.mp hx with hx | hx
    · exact hwithin x hx
    · exact h.within x hx

/-! ### A read joins -/

theorem Coalescing.join {g : CoalescerGroup L2Fetch NewAddrType} (h : c.Coalescing (r :: hand))
    (hr : r.isTmaSector = true) (hactive : c.coalescer.activeMaster r.sectorAddr = some m)
    (hg : c.coalescer.groups m = some g)
    (hc' : c' = { c with
      coalescer := c.coalescer.addWaiter m g r
      log := c.log ++ [L2Event.joined r m] }) : c'.Coalescing hand := by
  have hlog' : c'.log = c.log ++ [L2Event.joined r m] := by rw [hc']
  have hst : c'.stations = c.stations := by
    subst hc'
    unfold SubPartition.stations
    dsimp only
    rw [deliveries_none rfl]
  have hm := h.groups m g hg
  obtain ⟨hnew, hnowhere⟩ := h.hand_fresh (x := r) List.mem_cons_self
  have hperm : (hand ++ c.ropItems ++ (admitted c.log ++ [r])).Perm
      (r :: hand ++ c.ropItems ++ admitted c.log) := by
    rw [← List.append_assoc]
    exact List.perm_append_singleton _ _
  have hadmitted : admitted (c.log ++ [L2Event.joined r m]) = admitted c.log ++ [r] := admitted_some rfl
  have hmaster : ∀ m', IsMaster (c.log ++ [L2Event.joined r m]) m' ↔ IsMaster c.log m' := by
    intro m'
    rw [isMaster_concat]
    exact or_iff_left (fun hentered => nomatch hentered.1)
  have hconvoy : ∀ m', m' ≠ m → convoy (c.log ++ [L2Event.joined r m]) m' = convoy c.log m' :=
    fun m' hne => convoy_none (joinedTo?_ne hne.symm)
  have hgrows : ∀ m', ∀ x ∈ convoy c.log m', x ∈ convoy (c.log ++ [L2Event.joined r m]) m' := by
    intro m' x hx
    rw [mem_convoy] at hx ⊢
    exact hx.imp_right (List.mem_append_left _)
  have hresponded : ∀ x, L2Event.responded x ∈ c'.log ↔ L2Event.responded x ∈ c.log := by
    intro x
    rw [hlog', List.mem_append, List.mem_singleton]
    exact or_iff_left nofun
  constructor
  · intro x hx
    rw [hlog', hadmitted] at hx
    subst hc'
    exact h.ids x (hperm.mem_iff.mp hx)
  · rw [hlog', hadmitted]
    subst hc'
    exact hperm.nodup_iff.mpr h.arrivals
  · rw [hst]
    exact h.stations
  · intro x hx
    rw [hst] at hx
    rw [hlog', hadmitted]
    exact List.mem_append_left _ (h.known x hx)
  · intro x hx htma
    rw [hlog', hadmitted]
    exact List.mem_append_left _ (h.responses x ((hresponded x).mp hx) htma)
  · intro m' hm'
    rw [hlog'] at hm'
    have hold := (hmaster m').mp hm'
    rcases eq_or_ne m' m with rfl | hne
    · cases h.masters m' hold with
      | gathering g' hg' haddr hlist hplace hfresh hun =>
        rw [hg] at hg'
        cases hg'
        refine .gathering { g with waiters := g.waiters ++ [r] } ?_ haddr ?_ ?_ ?_
          (fun hre => hun ((hresponded m').mp hre))
        · subst hc'
          exact SectorCoalescer.addWaiter_self _ _ _ _
        · rw [hlog', convoy_joined, hlist]
          rfl
        · subst hc'
          exact hplace
        · intro x hx
          rw [hst]
          rcases List.mem_append.mp hx with hx | hx
          · exact hfresh x hx
          · rw [List.mem_singleton.mp hx]
            exact hnowhere
      | leaving _ _ _ hnone => rw [hg] at hnone; cases hnone
      | gone hnone => rw [hg] at hnone; cases hnone
    · refine (h.masters m' hold).frame ?_ ?_ ?_ ?_ ?_ (fun x _ hx => hst ▸ hx) (hresponded m')
      · subst hc'
        exact SectorCoalescer.addWaiter_other hne _ _
      · rw [hlog']
        exact hconvoy m' hne
      · rw [hlog']
        exact deliveredOf_congr (hconvoy m' hne) (deliveries_none rfl)
      · subst hc'
        exact id
      · subst hc'
        exact fun _ _ hh => ⟨hh, rfl⟩
  · intro m' g' hg'
    rw [hlog', hmaster]
    rcases eq_or_ne m' m with rfl | hne
    · exact hm
    · subst hc'
      dsimp only at hg'
      rw [SectorCoalescer.addWaiter_other hne] at hg'
      exact h.groups m' g' hg'
  · intro x q hq
    have hold : c.responseWaiters x = some q := by
      subst hc'
      exact hq
    obtain ⟨hnil, hx, m', hm', hmem⟩ := h.tails x q hold
    rw [hlog']
    refine ⟨hnil, ?_, m', (hmaster m').mpr hm', hgrows m' x hmem⟩
    subst hc'
    exact hx
  · intro r' m' hjoined
    rw [hlog'] at hjoined ⊢
    rw [hmaster]
    rcases List.mem_append.mp hjoined with hjoined | hjoined
    · exact h.joined r' m' hjoined
    · cases List.mem_singleton.mp hjoined
      exact ⟨hm, hr⟩
  · intro a m' ha
    have hold : c.coalescer.activeMaster a = some m' := by
      subst hc'
      exact ha
    obtain ⟨⟨g', hg'⟩, hcurrent⟩ := h.active a m' hold
    rw [hlog']
    refine ⟨?_, hcurrent.concat nofun fun _ h => nomatch h⟩
    subst hc'
    dsimp only
    rcases eq_or_ne m' m with rfl | hne
    · exact ⟨_, SectorCoalescer.addWaiter_self _ _ _ _⟩
    · rw [SectorCoalescer.addWaiter_other hne]
      exact ⟨g', hg'⟩
  · subst hc'
    exact h.room
  · intro l₁ l₂ r' m' hlog
    rw [hlog'] at hlog
    rcases split_concat hlog with ⟨rfl, he, -⟩ | ⟨l₂', -, hlog⟩
    · cases he
      exact (h.active _ m hactive).2
    · exact h.joins l₁ l₂' r' m' hlog
  · intro l₁ l₂ x m' hlog hm' hx
    rw [hlog'] at hlog hm' hx
    rcases split_concat hlog with ⟨-, he, -⟩ | ⟨l₂', -, hlog⟩
    · cases he
    · refine h.behind l₁ l₂' x m' hlog ((hmaster m').mp hm') ?_
      rw [mem_convoy] at hx ⊢
      rcases hx with hx | hx
      · exact .inl hx
      · rcases List.mem_append.mp hx with hx | hx
        · exact .inr hx
        · cases List.mem_singleton.mp hx
          exact absurd (delivered_station hlog (isTma_of_sector hr)) hnowhere
  · intro x hx
    refine h.within x ?_
    subst hc'
    rw [List.cons_append]
    exact List.mem_cons_of_mem _ hx

/-! ### A request enters the queue -/

theorem Coalescing.enter {w : L2Fetch} {coalescer : SectorCoalescer L2Fetch NewAddrType}
    (h : c.Coalescing (w :: hand))
    (hgroups : ∀ m, m ≠ w → coalescer.groups m = c.coalescer.groups m)
    (hgroup : coalescer.groups w = if w.isTmaSector then some ⟨w.sectorAddr, []⟩ else none)
    (hactive : ∀ a m, coalescer.activeMaster a = some m →
      (m = w ∧ a = w.sectorAddr ∧ w.isTmaSector = true) ∨
      (c.coalescer.activeMaster a = some m ∧ ¬ w.Alters a ∧
        ¬ (w.isTmaSector = true ∧ w.sectorAddr = a)))
    (hc' : c' = { c with
      coalescer := coalescer
      icntL2Queue := c.icntL2Queue ++ [w]
      log := c.log ++ [L2Event.entered w] }) : c'.Coalescing hand := by
  obtain ⟨hnew, hnowhere⟩ := h.hand_fresh (x := w) List.mem_cons_self
  have hlog' : c'.log = c.log ++ [L2Event.entered w] := by rw [hc']
  have hperm : (hand ++ c.ropItems ++ (admitted c.log ++ [w])).Perm
      (w :: hand ++ c.ropItems ++ admitted c.log) := by
    rw [← List.append_assoc]
    exact List.perm_append_singleton _ _
  have hadmitted : admitted (c.log ++ [L2Event.entered w]) = admitted c.log ++ [w] := admitted_some rfl
  have hmaster : ∀ m, IsMaster (c.log ++ [L2Event.entered w]) m ↔
      IsMaster c.log m ∨ (m = w ∧ w.isTmaSector = true) := by
    intro m
    rw [isMaster_concat]
    refine or_congr_right ⟨?_, ?_⟩
    · rintro ⟨he, hs⟩
      cases he
      exact ⟨rfl, hs⟩
    · rintro ⟨rfl, hs⟩
      exact ⟨rfl, hs⟩
  have hne : ∀ m, IsMaster c.log m → m ≠ w := by
    rintro m hm rfl
    exact hnew (mem_admitted_of_entered hm.1)
  have hconvoy : ∀ m, convoy (c.log ++ [L2Event.entered w]) m = convoy c.log m := fun m => convoy_none rfl
  have halone : convoy c.log w = [w] := by
    refine congrArg (w :: ·) (List.filterMap_eq_nil_iff.mpr ?_)
    intro e he
    rw [Option.eq_none_iff_forall_ne_some]
    intro r hr
    rw [L2Event.joinedTo?_eq_some] at hr
    subst hr
    exact hnew (mem_admitted_of_entered (h.joined r w he).1.1)
  have hresponded : ∀ x, L2Event.responded x ∈ c'.log ↔ L2Event.responded x ∈ c.log := by
    intro x
    rw [hlog', List.mem_append, List.mem_singleton]
    exact or_iff_left nofun
  have hunanswered : w.isTmaSector = true → L2Event.responded w ∉ c.log :=
    fun hs hre => hnew (h.responses w hre (isTma_of_sector hs))
  have hst : c'.stations.Perm ([w].filter isTma ++ c.stations) := by
    subst hc'
    unfold SubPartition.stations
    dsimp only
    rw [deliveries_none rfl]
    simp only [List.filter_append, List.append_assoc]
    exact List.perm_append_comm_assoc _ _ _
  have hmem : ∀ x, x ∈ c'.stations ↔ (x = w ∧ isTma w = true) ∨ x ∈ c.stations := by
    intro x
    rw [hst.mem_iff, List.mem_append, List.mem_filter, List.mem_singleton]
    refine or_congr_left ⟨?_, ?_⟩
    · rintro ⟨rfl, htma⟩
      exact ⟨rfl, htma⟩
    · rintro ⟨rfl, htma⟩
      exact ⟨rfl, htma⟩
  constructor
  · intro x hx
    rw [hlog', hadmitted] at hx
    subst hc'
    exact h.ids x (hperm.mem_iff.mp hx)
  · rw [hlog', hadmitted]
    subst hc'
    exact hperm.nodup_iff.mpr h.arrivals
  · rw [hst.nodup_iff, List.nodup_append]
    refine ⟨(List.nodup_singleton w).filter _, h.stations, ?_⟩
    rintro x hx y hy rfl
    rw [List.mem_singleton.mp (List.mem_filter.mp hx).1] at hy
    exact hnowhere hy
  · intro x hx
    rw [hlog', hadmitted]
    rcases (hmem x).mp hx with ⟨rfl, -⟩ | hx
    · exact List.mem_append_right _ (List.mem_singleton_self _)
    · exact List.mem_append_left _ (h.known x hx)
  · intro x hx htma
    rw [hlog', hadmitted]
    exact List.mem_append_left _ (h.responses x ((hresponded x).mp hx) htma)
  · intro m hm
    rw [hlog', hmaster] at hm
    rcases hm with hm | ⟨rfl, hs⟩
    · refine (h.masters m hm).frame ?_ ?_ ?_ ?_ ?_ ?_ (hresponded m)
      · subst hc'
        exact hgroups m (hne m hm)
      · rw [hlog']
        exact hconvoy m
      · rw [hlog']
        exact deliveredOf_congr (hconvoy m) (deliveries_none rfl)
      · subst hc'
        exact fun hplace => hplace.imp_left (List.mem_append_left _)
      · subst hc'
        exact fun _ _ hh => ⟨hh, rfl⟩
      · intro x hx hnot hx'
        rcases (hmem x).mp hx' with ⟨rfl, -⟩ | hx'
        · exact hnew (convoy_admitted hm hx)
        · exact hnot hx'
    · refine .gathering ⟨m.sectorAddr, []⟩ ?_ rfl ?_ ?_ (fun r hr => absurd hr List.not_mem_nil)
        (fun hre => hunanswered hs ((hresponded m).mp hre))
      · subst hc'
        rw [hs] at hgroup
        exact hgroup
      · rw [hlog', hconvoy]
        exact halone
      · subst hc'
        exact .inl (List.mem_append_right _ (List.mem_singleton_self _))
  · intro m g hg
    rw [hlog', hmaster]
    rcases eq_or_ne m w with rfl | hm
    · have hsome : coalescer.groups m = some g := by
        subst hc'
        exact hg
      rw [hgroup] at hsome
      split at hsome
      · rename_i hs
        exact .inr ⟨rfl, hs⟩
      · cases hsome
    · refine .inl (h.groups m g ?_)
      rw [← hgroups m hm]
      subst hc'
      exact hg
  · intro x q hq
    have hold : c.responseWaiters x = some q := by
      subst hc'
      exact hq
    obtain ⟨hnil, hx, m, hm, hxm⟩ := h.tails x q hold
    rw [hlog']
    refine ⟨hnil, ?_, m, (hmaster m).mpr (.inl hm), ?_⟩
    · subst hc'
      exact hx
    · rw [hconvoy]
      exact hxm
  · intro r m hjoined
    rw [hlog'] at hjoined ⊢
    rcases List.mem_append.mp hjoined with hjoined | hjoined
    · obtain ⟨hm, hr⟩ := h.joined r m hjoined
      exact ⟨(hmaster m).mpr (.inl hm), hr⟩
    · cases List.mem_singleton.mp hjoined
  · intro a m ha
    have hnow : coalescer.activeMaster a = some m := by
      subst hc'
      exact ha
    rw [hlog']
    rcases hactive a m hnow with ⟨rfl, rfl, hs⟩ | ⟨hold, hother⟩
    · refine ⟨⟨⟨m.sectorAddr, []⟩, ?_⟩, current_entered hs (hunanswered hs)⟩
      subst hc'
      rw [hs] at hgroup
      exact hgroup
    · obtain ⟨⟨g, hg⟩, hcurrent⟩ := h.active a m hold
      refine ⟨⟨g, ?_⟩, hcurrent.concat nofun ?_⟩
      · subst hc'
        exact (hgroups m (hne m hcurrent.isMaster)).trans hg
      · intro w' hw'
        cases hw'
        exact hother
  · subst hc'
    exact h.room
  · intro l₁ l₂ r m hlog
    rw [hlog'] at hlog
    rcases split_concat hlog with ⟨-, he, -⟩ | ⟨l₂', -, hlog⟩
    · cases he
    · exact h.joins l₁ l₂' r m hlog
  · intro l₁ l₂ x m hlog hm hx
    rw [hlog'] at hlog hm hx
    rw [hconvoy] at hx
    rcases split_concat hlog with ⟨-, he, -⟩ | ⟨l₂', -, hsplit⟩
    · cases he
    · rcases (hmaster m).mp hm with hm | ⟨rfl, hs⟩
      · exact h.behind l₁ l₂' x m hsplit hm hx
      · rw [halone, List.mem_singleton] at hx
        subst hx
        exact absurd (delivered_station hsplit (isTma_of_sector hs)) hnowhere
  · intro x hx
    refine h.within x ?_
    subst hc'
    rw [List.cons_append]
    exact List.mem_cons_of_mem _ hx

/-! ### L2 takes a request and answers it -/

theorem Coalescing.take {rest : List L2Fetch} (h : c.Coalescing hand)
    (hqueue : c.icntL2Queue = x :: rest)
    (hc' : c' = { c with icntL2Queue := rest, inService := c.inService ++ [x] }) :
    c'.Coalescing hand := by
  have hst : c'.stations.Perm c.stations := by
    subst hc'
    rw [List.perm_iff_count]
    intro y
    simp only [SubPartition.stations, hqueue, List.filter_append, List.filter_cons, List.filter_nil,
      List.count_append]
    split
    · simp only [List.count_cons, List.count_nil]
      omega
    · simp only [List.count_nil]
      omega
  have hplace : ∀ m, m ∈ c.icntL2Queue ∨ m ∈ c.inService →
      m ∈ c'.icntL2Queue ∨ m ∈ c'.inService := by
    subst hc'
    intro m hm
    rw [hqueue, List.mem_cons] at hm
    dsimp only
    rw [List.mem_append, List.mem_singleton]
    tauto
  have hphase : ∀ m, IsMaster c.log m → c'.Phase m := by
    intro m hm
    refine (h.masters m hm).frame ?_ ?_ ?_ (hplace m) ?_
      (fun r _ hr hr' => hr (hst.mem_iff.mp hr')) ?_
    · subst hc'
      rfl
    · subst hc'
      rfl
    · subst hc'
      rfl
    · subst hc'
      exact fun _ _ hh => ⟨hh, rfl⟩
    · subst hc'
      rfl
  have hnodup := hst.nodup_iff.mpr h.stations
  have hknown : ∀ y ∈ c'.stations, y ∈ admitted c.log :=
    fun y hy => h.known y (hst.mem_iff.mp hy)
  subst hc'
  exact ⟨h.ids, h.arrivals, hnodup, hknown, h.responses, hphase, h.groups, h.tails, h.joined,
    h.active, h.room, h.joins, h.behind, h.within⟩

end SubPartition

end FlashGpuSim
