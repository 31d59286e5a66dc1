import FlashGpuSim.L2.CoalescingInvariant

/-!
The responses of coalesced reads: a master is answered, and its waiters leave behind it, one
by one or all at once.
-/

namespace FlashGpuSim

open Lib

namespace SubPartition

variable {cfg : SubPartitionConfig} {c c' : SubPartition cfg} {hand : List L2Fetch}
  {m m' r x : L2Fetch}

/-! ### Where a request can be -/

/-- What is on its way to L2 or in L2 is not delivered. -/
theorem Coalescing.undelivered (h : c.Coalescing hand) (htma : isTma x = true)
    (hx : x ∈ c.icntL2Queue ∨ x ∈ c.inService) : x ∉ deliveries c.log := by
  have hstations := h.stations
  unfold SubPartition.stations at hstations
  intro hd
  apply (List.nodup_append.mp hstations).2.2 x _ x hd rfl
  apply List.mem_append_left
  rcases hx with hx | hx
  · exact List.mem_append_left _ (List.mem_filter.mpr ⟨hx, htma⟩)
  · exact List.mem_append_right _ (List.mem_filter.mpr ⟨hx, htma⟩)

/-- What L2 works on is neither queued for the interconnect nor delivered. -/
theorem Coalescing.service_alone (h : c.Coalescing hand) (hx : x ∈ c.inService)
    (htma : isTma x = true) :
    x ∈ c.stations ∧ x ∉ c.l2IcntQueue ∧ x ∉ deliveries c.log := by
  have hservice : x ∈ c.inService.filter isTma := List.mem_filter.mpr ⟨hx, htma⟩
  have hstations := h.stations
  unfold SubPartition.stations at hstations
  obtain ⟨hqueues, -, -⟩ := List.nodup_append.mp hstations
  refine ⟨?_, ?_, h.undelivered htma (.inr hx)⟩
  · exact List.mem_append_left _ (List.mem_append_left _ (List.mem_append_right _ hservice))
  · intro hout
    apply (List.nodup_append.mp hqueues).2.2 x (List.mem_append_right _ hservice) x _ rfl
    exact List.mem_filter.mpr ⟨hout, htma⟩

/-- What is queued for the interconnect is no longer in L2 and not yet delivered. -/
theorem Coalescing.response_alone (h : c.Coalescing hand) (hx : x ∈ c.l2IcntQueue)
    (htma : isTma x = true) : x ∈ c.stations ∧ ¬ (x ∈ c.icntL2Queue ∨ x ∈ c.inService) ∧
      x ∉ deliveries c.log := by
  have hout : x ∈ c.l2IcntQueue.filter isTma := List.mem_filter.mpr ⟨hx, htma⟩
  have hstations := h.stations
  unfold SubPartition.stations at hstations
  obtain ⟨hqueues, -, hdelivered⟩ := List.nodup_append.mp hstations
  have hdisjoint := (List.nodup_append.mp hqueues).2.2
  refine ⟨?_, ?_, ?_⟩
  · exact List.mem_append_left _ (List.mem_append_right _ hout)
  · rintro (hin | hin)
    · apply hdisjoint x (List.mem_append_left _ _) x hout rfl
      exact List.mem_filter.mpr ⟨hin, htma⟩
    · apply hdisjoint x (List.mem_append_right _ _) x hout rfl
      exact List.mem_filter.mpr ⟨hin, htma⟩
  · exact fun hd => hdelivered x (List.mem_append_right _ hout) x hd rfl

/-- A request that L2 has not answered is the master of a convoy that gathers. -/
theorem Coalescing.gathers (h : c.Coalescing hand) (hx : x ∈ c.inService) (hm : IsMaster c.log m)
    (hxm : x ∈ convoy c.log m) : m = x ∧ ∃ g, c.coalescer.groups m = some g ∧
      g.address = m.sectorAddr ∧ convoy c.log m = m :: g.waiters ∧
      ∀ r ∈ g.waiters, r ∉ c.stations := by
  obtain ⟨hstation, hqueue, hdelivered⟩ := h.service_alone hx (h.isTma_convoy hm hxm)
  cases h.masters m hm with
  | gathering g hg haddr hlist _ hfresh _ =>
    refine ⟨?_, g, hg, haddr, hlist, hfresh⟩
    rw [hlist, List.mem_cons] at hxm
    rcases hxm with hxm | hxm
    · exact hxm.symm
    · exact absurd hstation (hfresh x hxm)
  | leaving before y waiting _ hlist hy _ hd hfresh _ =>
    exfalso
    rw [hlist, List.mem_append, List.mem_cons] at hxm
    rcases hxm with hbefore | rfl | hwaiting
    · rw [← hd] at hbefore
      exact hdelivered (List.mem_filter.mp hbefore).1
    · exact hqueue hy
    · exact hfresh x hwaiting hstation
  | gone _ hd _ =>
    rw [← hd] at hxm
    exact absurd (List.mem_filter.mp hxm).1 hdelivered

/-- A response in the queue is the next one of its convoy. -/
theorem Coalescing.next (h : c.Coalescing hand) (hx : x ∈ c.l2IcntQueue) (hm : IsMaster c.log m)
    (hxm : x ∈ convoy c.log m) : c.coalescer.groups m = none ∧
      convoy c.log m = deliveredOf c.log m ++ x :: c.tail x ∧
      (∀ r ∈ c.tail x, r ∉ c.stations) ∧ L2Event.responded m ∈ c.log := by
  obtain ⟨hstation, hin, hdelivered⟩ := h.response_alone hx (h.isTma_convoy hm hxm)
  cases h.masters m hm with
  | gathering g _ _ hlist hplace hfresh _ =>
    exfalso
    rw [hlist, List.mem_cons] at hxm
    rcases hxm with rfl | hxm
    · exact hin hplace
    · exact hfresh x hxm hstation
  | leaving before y waiting hg hlist _ ht hd hfresh hre =>
    have hxm' := hxm
    rw [hlist, List.mem_append, List.mem_cons] at hxm'
    rcases hxm' with hbefore | rfl | hwaiting
    · rw [← hd] at hbefore
      exact absurd (List.mem_filter.mp hbefore).1 hdelivered
    · rw [hd, ht]
      exact ⟨hg, hlist, hfresh, hre⟩
    · exact absurd hstation (hfresh x hwaiting)
  | gone _ hd _ =>
    rw [← hd] at hxm
    exact absurd (List.mem_filter.mp hxm).1 hdelivered

/-- Only a read that L2 has answered has waiters at its response. -/
theorem Coalescing.no_waiters (h : c.Coalescing hand)
    (hx : isTma x = true → x ∉ c.l2IcntQueue) : c.responseWaiters x = none := by
  rw [Option.eq_none_iff_forall_ne_some]
  intro q hq
  obtain ⟨-, hqueue, m, hm, hxm⟩ := h.tails x q hq
  exact hx (h.isTma_convoy hm hxm) hqueue

/-! ### L2 answers a request -/

theorem filter_erase_perm {l : List L2Fetch} (hx : isTma x = true → x ∈ l) :
    ((l.erase x).filter isTma ++ [x].filter isTma).Perm (l.filter isTma) := by
  rw [← List.filter_append]
  by_cases hmem : x ∈ l
  · apply List.Perm.filter
    exact (List.perm_append_singleton x _).trans (List.perm_cons_erase hmem).symm
  · have hnot : isTma x = false := by simpa using mt hx hmem
    rw [List.erase_of_not_mem hmem, List.filter_append]
    simp [hnot]

theorem Coalescing.respond {coalescer : SectorCoalescer L2Fetch NewAddrType}
    {waiters : L2Fetch → Option (List L2Fetch)} (h : c.Coalescing hand)
    (hx : isTma x = true → x ∈ c.inService) (hroom : c.l2IcntQueue.length < cfg.l2IcntLength)
    (hgroups : coalescer.groups = Function.update c.coalescer.groups x none)
    (hactive : ∀ a m, coalescer.activeMaster a = some m →
      c.coalescer.activeMaster a = some m ∧ m ≠ x)
    (hwaiters : ∀ y, y ≠ x → waiters y = c.responseWaiters y)
    (hnone : c.coalescer.groups x = none → waiters x = none)
    (hsome : ∀ g, c.coalescer.groups x = some g → (waiters x).getD [] = g.waiters ∧
      waiters x ≠ some [])
    (hc' : c' = { c with
      inService := c.inService.erase x
      l2IcntQueue := c.l2IcntQueue ++ [x]
      coalescer := coalescer
      responseWaiters := waiters
      log := c.log ++ [L2Event.responded x] }) : c'.Coalescing hand := by
  have hlog' : c'.log = c.log ++ [L2Event.responded x] := by rw [hc']
  have hst : c'.stations.Perm c.stations := by
    subst hc'
    unfold SubPartition.stations
    dsimp only
    rw [deliveries_none rfl, List.filter_append, List.perm_iff_count]
    intro y
    have hcount := (filter_erase_perm hx).count_eq y
    simp only [List.count_append] at hcount ⊢
    omega
  have hadmitted : admitted c'.log = admitted c.log := by
    rw [hlog']
    exact admitted_none rfl
  have hconvoy : ∀ m, convoy c'.log m = convoy c.log m := by
    intro m
    rw [hlog']
    exact convoy_none rfl
  have hdelivered : ∀ m, deliveredOf c'.log m = deliveredOf c.log m := by
    intro m
    apply deliveredOf_congr (hconvoy m)
    rw [hlog']
    exact deliveries_none rfl
  have hmaster : ∀ m, IsMaster c'.log m ↔ IsMaster c.log m := by
    intro m
    rw [hlog', isMaster_concat]
    exact or_iff_left (fun hentered => nomatch hentered.1)
  have hother : ∀ m, IsMaster c.log m → m ≠ x → x ∉ convoy c.log m := by
    intro m hm hne hxm
    exact hne (h.gathers (hx (h.isTma_convoy hm hxm)) hm hxm).1
  have hqueue : c'.l2IcntQueue = c.l2IcntQueue ++ [x] := by rw [hc']
  have hwaiting : c'.responseWaiters = waiters := by rw [hc']
  have hgroup : c'.coalescer.groups = Function.update c.coalescer.groups x none := by
    rw [hc']
    exact hgroups
  constructor
  · intro y hy
    rw [hadmitted] at hy
    subst hc'
    exact h.ids y hy
  · rw [hadmitted]
    subst hc'
    exact h.arrivals
  · exact hst.nodup_iff.mpr h.stations
  · intro y hy
    rw [hadmitted]
    exact h.known y (hst.mem_iff.mp hy)
  · intro y hy htma
    rw [hadmitted]
    rw [hlog'] at hy
    rcases List.mem_append.mp hy with hy | hy
    · exact h.responses y hy htma
    · cases List.mem_singleton.mp hy
      exact h.known x (h.service_alone (hx htma) htma).1
  · intro m hm
    have hold := (hmaster m).mp hm
    rcases eq_or_ne m x with rfl | hne
    · have hservice := hx (isTma_of_sector hold.2)
      obtain ⟨-, g, hg, -, hlist, hfresh⟩ := h.gathers hservice hold List.mem_cons_self
      obtain ⟨-, -, hundelivered⟩ := h.service_alone hservice (isTma_of_sector hold.2)
      refine .leaving [] m g.waiters ?_ ?_ ?_ ?_ ?_ ?_ ?_
      · rw [hgroup, Function.update_self]
      · rw [hconvoy, hlist]
        rfl
      · rw [hqueue]
        exact List.mem_append_right _ (List.mem_singleton_self _)
      · unfold tail
        rw [hwaiting]
        exact (hsome g hg).1
      · rw [hdelivered]
        apply List.filter_eq_nil_iff.mpr
        intro y hy hmem
        rw [decide_eq_true_eq, hlist, List.mem_cons] at hmem
        rcases hmem with rfl | hmem
        · exact hundelivered hy
        · exact hfresh y hmem (List.mem_append_right _ hy)
      · exact fun r hr hr' => hfresh r hr (hst.mem_iff.mp hr')
      · rw [hlog']
        exact List.mem_append_right _ (List.mem_singleton_self _)
    · apply (h.masters m hold).frame _ (hconvoy m) (hdelivered m)
      · subst hc'
        exact fun hplace => hplace.imp_right (List.mem_erase_of_ne hne).mpr
      · intro y hy hyqueue
        have hyx : y ≠ x := by
          rintro rfl
          exact hother m hold hne hy
        rw [hqueue]
        refine ⟨List.mem_append_left _ hyqueue, ?_⟩
        unfold tail
        rw [hwaiting, hwaiters y hyx]
      · exact fun r _ hr hr' => hr (hst.mem_iff.mp hr')
      · rw [hlog', List.mem_append, List.mem_singleton]
        apply or_iff_left
        rintro ⟨⟩
        exact hne rfl
      · rw [hgroup, Function.update_of_ne hne]
  · intro m g hg
    rw [hmaster]
    rw [hgroup] at hg
    rcases eq_or_ne m x with rfl | hne
    · rw [Function.update_self] at hg
      cases hg
    · rw [Function.update_of_ne hne] at hg
      exact h.groups m g hg
  · intro y q hq
    rw [hwaiting] at hq
    rw [hqueue]
    rcases eq_or_ne y x with rfl | hne
    · cases hg : c.coalescer.groups y with
      | none =>
        rw [hnone hg] at hq
        cases hq
      | some g =>
        have hm := h.groups y g hg
        refine ⟨?_, List.mem_append_right _ (List.mem_singleton_self _), y, (hmaster y).mpr hm, ?_⟩
        · rintro rfl
          exact (hsome g hg).2 hq
        · exact List.mem_cons_self
    · rw [hwaiters y hne] at hq
      obtain ⟨hnil, hy, m, hm, hym⟩ := h.tails y q hq
      refine ⟨hnil, List.mem_append_left _ hy, m, (hmaster m).mpr hm, ?_⟩
      rw [hconvoy]
      exact hym
  · intro r m hjoined
    rw [hmaster]
    rw [hlog'] at hjoined
    rcases List.mem_append.mp hjoined with hjoined | hjoined
    · exact h.joined r m hjoined
    · cases List.mem_singleton.mp hjoined
  · intro a m ha
    have hnow : coalescer.activeMaster a = some m := by
      subst hc'
      exact ha
    obtain ⟨hold, hne⟩ := hactive a m hnow
    obtain ⟨⟨g, hg⟩, hcurrent⟩ := h.active a m hold
    rw [hlog', hgroup, Function.update_of_ne hne]
    refine ⟨⟨g, hg⟩, hcurrent.concat ?_ fun _ h => nomatch h⟩
    rintro ⟨⟩
    exact hne rfl
  · rw [hqueue, List.length_append]
    exact hroom
  · intro l₁ l₂ r m hlog
    rw [hlog'] at hlog
    rcases split_concat hlog with ⟨-, he, -⟩ | ⟨l₂', -, hlog⟩
    · cases he
    · exact h.joins l₁ l₂' r m hlog
  · intro l₁ l₂ y m hlog hm hy
    rw [hlog'] at hlog
    rw [hconvoy] at hy
    rcases split_concat hlog with ⟨-, he, -⟩ | ⟨l₂', -, hlog⟩
    · cases he
    · exact h.behind l₁ l₂' y m hlog ((hmaster m).mp hm) hy
  · subst hc'
    exact h.within

/-! ### A response leaves -/

/-- What leaves with a response: its waiters, when it is a coalesced read. -/
def leaving (c : SubPartition cfg) (x : L2Fetch) : List L2Fetch :=
  if isTma x then x :: c.tail x else []

theorem deliveries_append (log : List L2Event) (xs : List L2Fetch) :
    deliveries (log ++ xs.map L2Event.delivered) = deliveries log ++ xs.filter isTma := by
  unfold deliveries
  rw [List.filterMap_append]
  congr 1
  induction xs with
  | nil => rfl
  | cons x xs ih =>
    rw [List.map_cons, List.filterMap_cons, List.filter_cons, ih]
    by_cases htma : x.accessType = .tmaAccR
    · simp [L2Event.deliveredTma?, isTma, htma]
    · simp [L2Event.deliveredTma?, isTma, htma]

theorem admitted_append (log : List L2Event) (xs : List L2Fetch) :
    admitted (log ++ xs.map L2Event.delivered) = admitted log := by
  unfold admitted
  rw [List.filterMap_append, List.append_right_eq_self, List.filterMap_eq_nil_iff]
  intro e he
  obtain ⟨y, -, rfl⟩ := List.mem_map.mp he
  rfl

theorem convoy_append (log : List L2Event) (xs : List L2Fetch) (m : L2Fetch) :
    convoy (log ++ xs.map L2Event.delivered) m = convoy log m := by
  unfold convoy
  rw [List.filterMap_append, List.cons_inj_right, List.append_right_eq_self,
    List.filterMap_eq_nil_iff]
  intro e he
  obtain ⟨y, -, rfl⟩ := List.mem_map.mp he
  rfl

theorem mem_append_delivered {log : List L2Event} {xs : List L2Fetch} {e : L2Event}
    (he : ∀ x, e ≠ .delivered x) : e ∈ log ++ xs.map L2Event.delivered ↔ e ∈ log := by
  rw [List.mem_append]
  apply or_iff_left
  intro hmem
  obtain ⟨y, -, rfl⟩ := List.mem_map.mp hmem
  exact he y rfl

theorem isMaster_append {log : List L2Event} {xs : List L2Fetch} :
    IsMaster (log ++ xs.map L2Event.delivered) m ↔ IsMaster log m :=
  and_congr_left' (mem_append_delivered fun _ h => nomatch h)

/-- The waiters at a response are nowhere else, and belong to the convoy of the response. -/
theorem Coalescing.tail_fresh (h : c.Coalescing hand) (hx : x ∈ c.l2IcntQueue) :
    (c.tail x).Nodup ∧ (∀ r ∈ c.tail x, r ∉ c.stations ∧ r ∈ admitted c.log ∧ isTma r = true) ∧
      ∀ m, IsMaster c.log m → ∀ r ∈ c.tail x, r ∈ convoy c.log m → x ∈ convoy c.log m := by
  unfold tail
  cases hq : c.responseWaiters x with
  | none =>
    refine ⟨.nil, ?_, ?_⟩
    · exact fun r hr => absurd hr List.not_mem_nil
    · exact fun m _ r hr => absurd hr List.not_mem_nil
  | some q =>
    obtain ⟨-, -, m, hm, hxm⟩ := h.tails x q hq
    obtain ⟨-, hlist, hfresh, -⟩ := h.next hx hm hxm
    have htail : c.tail x = q := by
      unfold tail
      rw [hq]
      rfl
    rw [htail] at hlist hfresh
    have hmem : ∀ r ∈ q, r ∈ convoy c.log m := by
      intro r hr
      rw [hlist]
      exact List.mem_append_right _ (List.mem_cons_of_mem _ hr)
    refine ⟨?_, ?_, ?_⟩
    · have hnodup := nodup_convoy h.admitted_nodup hm
      rw [hlist] at hnodup
      exact (List.nodup_cons.mp (List.nodup_append.mp hnodup).2.1).2
    · exact fun r hr => ⟨hfresh r hr, convoy_admitted hm (hmem r hr), h.isTma_convoy hm (hmem r hr)⟩
    · intro m' hm' r hr hrm'
      rw [convoy_unique h.admitted_nodup hm' hm hrm' (hmem r hr)]
      exact hxm

theorem Coalescing.leave {rest gone : List L2Fetch} (h : c.Coalescing hand)
    (hqueue : c.l2IcntQueue = x :: rest) (hgone : gone.filter isTma = c.leaving x)
    (hc' : c' = { c with
      l2IcntQueue := rest
      responseWaiters := Function.update c.responseWaiters x none
      log := c.log ++ gone.map L2Event.delivered }) : c'.Coalescing hand := by
  have hhead : x ∈ c.l2IcntQueue := by
    rw [hqueue]
    exact List.mem_cons_self
  obtain ⟨hnodup, htail, hsame⟩ := h.tail_fresh hhead
  have hlog' : c'.log = c.log ++ gone.map L2Event.delivered := by rw [hc']
  have hadmitted : admitted c'.log = admitted c.log := by
    rw [hlog']
    exact admitted_append _ _
  have hconvoy : ∀ m, convoy c'.log m = convoy c.log m := by
    intro m
    rw [hlog']
    exact convoy_append _ _ _
  have hmaster : ∀ m, IsMaster c'.log m ↔ IsMaster c.log m := by
    intro m
    rw [hlog']
    exact isMaster_append
  have hresponded : ∀ y, L2Event.responded y ∈ c'.log ↔ L2Event.responded y ∈ c.log := by
    intro y
    rw [hlog']
    exact mem_append_delivered fun _ h => nomatch h
  have hout : deliveries c'.log = deliveries c.log ++ c.leaving x := by
    rw [hlog', deliveries_append, hgone]
  have hwaiters : c'.responseWaiters = Function.update c.responseWaiters x none := by rw [hc']
  have hrest : c'.l2IcntQueue = rest := by rw [hc']
  have hst : c'.stations.Perm (c.stations ++ if isTma x then c.tail x else []) := by
    unfold SubPartition.stations
    rw [hout, hrest, hqueue, List.perm_iff_count]
    intro y
    subst hc'
    dsimp only
    unfold leaving
    simp only [List.count_append, List.filter_cons]
    split
    · simp only [List.count_cons]
      omega
    · simp only [List.count_nil]
      omega
  have hmem : ∀ y ∈ c'.stations, y ∈ c.stations ∨ y ∈ c.tail x := by
    intro y hy
    have hy' := hst.mem_iff.mp hy
    rw [List.mem_append] at hy'
    refine hy'.imp_right (fun htail => ?_)
    split at htail
    · exact htail
    · exact absurd htail List.not_mem_nil
  -- The one convoy that moves is that of `x`.
  have hfar : ∀ m, IsMaster c.log m → x ∉ convoy c.log m →
      (∀ y ∈ c.leaving x, y ∉ convoy c.log m) := by
    intro m hm hxm y hy
    unfold leaving at hy
    split at hy
    · rcases List.mem_cons.mp hy with rfl | hy
      · exact hxm
      · exact fun hym => hxm (hsame m hm y hy hym)
    · exact absurd hy List.not_mem_nil
  constructor
  · intro y hy
    rw [hadmitted] at hy
    subst hc'
    exact h.ids y hy
  · rw [hadmitted]
    subst hc'
    exact h.arrivals
  · rw [hst.nodup_iff, List.nodup_append]
    refine ⟨h.stations, ?_, ?_⟩
    · split
      · exact hnodup
      · exact .nil
    · rintro y hy z hz rfl
      split at hz
      · exact (htail y hz).1 hy
      · exact absurd hz List.not_mem_nil
  · intro y hy
    rw [hadmitted]
    rcases hmem y hy with hy | hy
    · exact h.known y hy
    · exact (htail y hy).2.1
  · intro y hy htma
    rw [hadmitted]
    exact h.responses y ((hresponded y).mp hy) htma
  · intro m hm
    have hold := (hmaster m).mp hm
    have hgroup : c'.coalescer.groups m = c.coalescer.groups m := by rw [hc']
    by_cases hxm : x ∈ convoy c.log m
    · obtain ⟨hg, hlist, -, hre⟩ := h.next hhead hold hxm
      refine .gone (hgroup.trans hg) ?_ ((hresponded m).mpr hre)
      have hleaving : c.leaving x = x :: c.tail x := if_pos (h.isTma_convoy hold hxm)
      have hall : (x :: c.tail x).filter (· ∈ convoy c.log m) = x :: c.tail x := by
        apply List.filter_eq_self.mpr
        intro y hy
        rw [decide_eq_true_eq, hlist]
        exact List.mem_append_right _ hy
      rw [hconvoy, hlist]
      unfold deliveredOf
      rw [hout, hleaving]
      simp only [hconvoy]
      rw [List.filter_append, hall]
    · apply (h.masters m hold).frame hgroup (hconvoy m) _ _ _ _ (hresponded m)
      · unfold deliveredOf
        rw [hout]
        simp only [hconvoy]
        rw [List.filter_append, List.append_right_eq_self, List.filter_eq_nil_iff]
        intro y hy
        rw [decide_eq_true_eq]
        exact hfar m hold hxm y hy
      · subst hc'
        exact id
      · intro y hy hyqueue
        have hyx : y ≠ x := by
          rintro rfl
          exact hxm hy
        rw [hqueue, List.mem_cons] at hyqueue
        rw [hrest]
        refine ⟨hyqueue.resolve_left hyx, ?_⟩
        unfold tail
        rw [hwaiters, Function.update_of_ne hyx]
      · intro r hr hnot hr'
        rcases hmem r hr' with hr' | hr'
        · exact hnot hr'
        · exact hxm (hsame m hold r hr' hr)
  · intro m g hg
    rw [hmaster]
    subst hc'
    exact h.groups m g hg
  · intro y q hq
    rw [hwaiters] at hq
    rcases eq_or_ne y x with rfl | hne
    · rw [Function.update_self] at hq
      cases hq
    · rw [Function.update_of_ne hne] at hq
      obtain ⟨hnil, hy, m, hm, hym⟩ := h.tails y q hq
      rw [hqueue, List.mem_cons] at hy
      rw [hrest]
      refine ⟨hnil, hy.resolve_left hne, m, (hmaster m).mpr hm, ?_⟩
      rw [hconvoy]
      exact hym
  · intro r m hjoined
    rw [hmaster]
    rw [hlog'] at hjoined
    exact h.joined r m ((mem_append_delivered (e := .joined r m) fun _ h => nomatch h).mp hjoined)
  · intro a m ha
    have hold : c.coalescer.activeMaster a = some m := by
      subst hc'
      exact ha
    obtain ⟨⟨g, hg⟩, hcurrent⟩ := h.active a m hold
    rw [hlog']
    refine ⟨⟨g, ?_⟩, hcurrent.append gone⟩
    subst hc'
    exact hg
  · have hroom := h.room
    rw [hqueue, List.length_cons] at hroom
    rw [hrest]
    omega
  · intro l₁ l₂ r m hlog
    rw [hlog'] at hlog
    rcases split_append hlog with ⟨mid, -, he⟩ | ⟨l₂', hlog⟩
    · obtain ⟨y, -, hy⟩ := List.mem_map.mp he
      cases hy
    · exact h.joins l₁ l₂' r m hlog
  · intro l₁ l₂ y m hlog hm hy
    rw [hlog'] at hlog
    rw [hconvoy] at hy
    have hold := (hmaster m).mp hm
    rcases split_append hlog with ⟨mid, rfl, he⟩ | ⟨l₂', hlog⟩
    · obtain ⟨z, hz, he⟩ := List.mem_map.mp he
      cases he
      apply List.mem_append_left
      have hleave : y ∈ c.leaving x := by
        rw [← hgone]
        exact List.mem_filter.mpr ⟨hz, h.isTma_convoy hold hy⟩
      by_cases hxm : x ∈ convoy c.log m
      · exact (h.next hhead hold hxm).2.2.2
      · exact absurd hy (hfar m hold hxm y hleave)
    · exact h.behind l₁ l₂' y m hlog hold hy
  · subst hc'
    exact h.within

/-- The next waiter takes the place of a response that left, with the other waiters behind it. -/
theorem Coalescing.release {rest remaining : List L2Fetch} {next : L2Fetch} (h : c.Coalescing hand)
    (hqueue : c.l2IcntQueue = x :: rest) (hwaiting : c.responseWaiters x = some (next :: remaining))
    (hc' : c' = { c with
      l2IcntQueue := rest ++ [next]
      responseWaiters := Function.update (Function.update c.responseWaiters x none) next
        (if remaining.isEmpty then none else some remaining)
      log := c.log ++ [L2Event.delivered x, .responded next] }) : c'.Coalescing hand := by
  have hhead : x ∈ c.l2IcntQueue := by
    rw [hqueue]
    exact List.mem_cons_self
  have htailx : c.tail x = next :: remaining := by
    unfold tail
    rw [hwaiting]
    rfl
  obtain ⟨-, -, m₀, hm₀, hxm₀⟩ := h.tails x _ hwaiting
  have htma := h.isTma_convoy hm₀ hxm₀
  obtain ⟨hg₀, hlist₀, hfresh₀, hre₀⟩ := h.next hhead hm₀ hxm₀
  rw [htailx] at hlist₀ hfresh₀
  have hnextm : next ∈ convoy c.log m₀ := by
    rw [hlist₀]
    exact List.mem_append_right _ (List.mem_cons_of_mem _ List.mem_cons_self)
  have hnextTma := h.isTma_convoy hm₀ hnextm
  have hnextFresh := hfresh₀ next List.mem_cons_self
  have hnodup := nodup_convoy h.admitted_nodup hm₀
  rw [hlist₀, List.nodup_append, List.nodup_cons, List.nodup_cons] at hnodup
  obtain ⟨-, ⟨hxnot, hnextnot, -⟩, -⟩ := hnodup
  have hne : next ≠ x := by
    rintro rfl
    exact hxnot List.mem_cons_self
  have honly : ∀ m, IsMaster c.log m → ∀ y, y ∈ convoy c.log m₀ → y ∈ convoy c.log m → m = m₀ :=
    fun m hm y hy hym => convoy_unique h.admitted_nodup hm hm₀ hym hy
  have hlog' : c'.log = c.log ++ [L2Event.delivered x, .responded next] := by rw [hc']
  have hevents : c.log ++ [L2Event.delivered x, .responded next] =
      (c.log ++ [L2Event.delivered x]) ++ [L2Event.responded next] := by
    rw [List.append_assoc]
    rfl
  have hadmitted : admitted c'.log = admitted c.log := by
    rw [hlog', hevents, admitted_none rfl, admitted_none rfl]
  have hconvoy : ∀ m, convoy c'.log m = convoy c.log m := by
    intro m
    rw [hlog', hevents, convoy_none rfl, convoy_none rfl]
  have hout : deliveries c'.log = deliveries c.log ++ [x] := by
    rw [hlog', hevents, deliveries_none rfl]
    exact filterMap_concat_some (if_pos (of_decide_eq_true htma))
  have hmaster : ∀ m, IsMaster c'.log m ↔ IsMaster c.log m := by
    intro m
    rw [hlog', hevents, isMaster_concat, isMaster_concat]
    rw [or_iff_left (fun hentered => nomatch hentered.1)]
    exact or_iff_left (fun hentered => nomatch hentered.1)
  have hresponded : ∀ y, L2Event.responded y ∈ c'.log ↔
      L2Event.responded y ∈ c.log ∨ y = next := by
    intro y
    rw [hlog']
    simp
  have hqueue' : c'.l2IcntQueue = rest ++ [next] := by rw [hc']
  have hwaiters : c'.responseWaiters = Function.update (Function.update c.responseWaiters x none)
      next (if remaining.isEmpty then none else some remaining) := by rw [hc']
  have hgroup : c'.coalescer = c.coalescer := by rw [hc']
  have hst : c'.stations.Perm (c.stations ++ [next]) := by
    unfold SubPartition.stations
    rw [hout, hqueue', hqueue, List.perm_iff_count]
    intro y
    subst hc'
    dsimp only
    simp only [List.count_append, List.filter_cons, List.filter_append, htma, hnextTma, if_true,
      List.count_cons, List.count_nil, List.filter_nil]
    omega
  have hmem : ∀ y ∈ c'.stations, y ∈ c.stations ∨ y = next := by
    intro y hy
    rw [hst.mem_iff, List.mem_append, List.mem_singleton] at hy
    exact hy
  constructor
  · intro y hy
    rw [hadmitted] at hy
    subst hc'
    exact h.ids y hy
  · rw [hadmitted]
    subst hc'
    exact h.arrivals
  · rw [hst.nodup_iff, List.nodup_append]
    refine ⟨h.stations, List.nodup_singleton next, ?_⟩
    rintro y hy z hz rfl
    rw [List.mem_singleton.mp hz] at hy
    exact hnextFresh hy
  · intro y hy
    rw [hadmitted]
    rcases hmem y hy with hy | rfl
    · exact h.known y hy
    · exact convoy_admitted hm₀ hnextm
  · intro y hy hytma
    rw [hadmitted]
    rcases (hresponded y).mp hy with hy | rfl
    · exact h.responses y hy hytma
    · exact convoy_admitted hm₀ hnextm
  · intro m hm
    have hold := (hmaster m).mp hm
    rcases eq_or_ne m m₀ with rfl | hm_ne
    · refine .leaving (deliveredOf c.log m ++ [x]) next remaining ?_ ?_ ?_ ?_ ?_ ?_ ?_
      · rw [hgroup]
        exact hg₀
      · rw [hconvoy, hlist₀, List.append_cons]
      · rw [hqueue']
        exact List.mem_append_right _ (List.mem_singleton_self _)
      · unfold tail
        rw [hwaiters, Function.update_self]
        cases remaining with
        | nil => rfl
        | cons _ _ => rfl
      · unfold deliveredOf
        rw [hout]
        simp only [hconvoy]
        rw [List.filter_append, List.append_cancel_left_eq]
        exact List.filter_eq_self.mpr (by simpa using hxm₀)
      · intro r hr hr'
        rcases hmem r hr' with hr' | rfl
        · exact hfresh₀ r (List.mem_cons_of_mem _ hr) hr'
        · exact hnextnot hr
      · exact (hresponded m).mpr (.inl hre₀)
    · have hfar : ∀ y ∈ convoy c.log m₀, y ∉ convoy c.log m :=
        fun y hy hym => hm_ne (honly m hold y hy hym)
      apply (h.masters m hold).frame _ (hconvoy m)
      · unfold deliveredOf
        rw [hout]
        simp only [hconvoy]
        rw [List.filter_append, List.append_right_eq_self, List.filter_eq_nil_iff]
        intro y hy
        rw [List.mem_singleton.mp hy, decide_eq_true_eq]
        exact hfar x hxm₀
      · subst hc'
        exact id
      · intro y hy hyqueue
        have hyx : y ≠ x := by
          rintro rfl
          exact hfar y hxm₀ hy
        have hynext : y ≠ next := by
          rintro rfl
          exact hfar y hnextm hy
        rw [hqueue, List.mem_cons] at hyqueue
        rw [hqueue']
        refine ⟨List.mem_append_left _ (hyqueue.resolve_left hyx), ?_⟩
        unfold tail
        rw [hwaiters, Function.update_of_ne hynext, Function.update_of_ne hyx]
      · intro r hr hnot hr'
        rcases hmem r hr' with hr' | rfl
        · exact hnot hr'
        · exact hfar r hnextm hr
      · rw [hresponded]
        apply or_iff_left
        rintro rfl
        exact hfar m hnextm List.mem_cons_self
      · rw [hgroup]
  · intro m g hg
    rw [hmaster]
    rw [hgroup] at hg
    exact h.groups m g hg
  · intro y q hq
    rw [hwaiters] at hq
    rw [hqueue']
    rcases eq_or_ne y next with rfl | hynext
    · rw [Function.update_self] at hq
      refine ⟨?_, List.mem_append_right _ (List.mem_singleton_self _), m₀, (hmaster m₀).mpr hm₀, ?_⟩
      · rintro rfl
        cases remaining with
        | nil => cases hq
        | cons _ _ => cases hq
      · rw [hconvoy]
        exact hnextm
    · rw [Function.update_of_ne hynext] at hq
      rcases eq_or_ne y x with rfl | hyx
      · rw [Function.update_self] at hq
        cases hq
      · rw [Function.update_of_ne hyx] at hq
        obtain ⟨hnil, hy, m, hm, hym⟩ := h.tails y q hq
        rw [hqueue, List.mem_cons] at hy
        refine ⟨hnil, List.mem_append_left _ (hy.resolve_left hyx), m, (hmaster m).mpr hm, ?_⟩
        rw [hconvoy]
        exact hym
  · intro r m hjoined
    rw [hmaster]
    rw [hlog', List.mem_append] at hjoined
    rcases hjoined with hjoined | hjoined
    · exact h.joined r m hjoined
    · simp at hjoined
  · intro a m ha
    rw [hgroup] at ha
    obtain ⟨⟨g, hg⟩, hcurrent⟩ := h.active a m ha
    rw [hgroup, hlog', hevents]
    have hleft := hcurrent.append [x]
    refine ⟨⟨g, hg⟩, hleft.concat ?_ fun _ h => nomatch h⟩
    intro hnext
    cases hnext
    rw [honly next hcurrent.isMaster next hnextm List.mem_cons_self] at hg
    rw [hg₀] at hg
    cases hg
  · have hroom := h.room
    rw [hqueue, List.length_cons] at hroom
    rw [hqueue', List.length_append, List.length_singleton]
    exact hroom
  · intro l₁ l₂ r m hlog
    rw [hlog'] at hlog
    rcases split_append hlog with ⟨mid, -, he⟩ | ⟨l₂', hlog⟩
    · simp at he
    · exact h.joins l₁ l₂' r m hlog
  · intro l₁ l₂ y m hlog hm hy
    have hold := (hmaster m).mp hm
    rw [hlog'] at hlog
    rw [hconvoy] at hy
    rcases split_append hlog with ⟨mid, rfl, he⟩ | ⟨l₂', hlog⟩
    · simp only [List.mem_cons, L2Event.delivered.injEq, reduceCtorEq, List.not_mem_nil,
        or_false] at he
      subst he
      rw [honly m hold y hxm₀ hy]
      exact List.mem_append_left _ hre₀
    · exact h.behind l₁ l₂' y m hlog hold hy
  · subst hc'
    exact h.within

/-! ### What is still to leave -/

/-- The responses in the queue, with the waiters behind them. -/
def backlog (c : SubPartition cfg) : Nat :=
  (c.l2IcntQueue.map fun x => 1 + (c.tail x).length).sum

/-- One response fewer is to leave, if there was one. -/
def Drains (c c' : SubPartition cfg) : Prop := c.log <+: c'.log ∧ c'.backlog ≤ c.backlog - 1

theorem backlog_lt {rest released : List L2Fetch} (hqueue : c.l2IcntQueue = x :: rest)
    (hqueue' : c'.l2IcntQueue = rest ++ released)
    (htails : ∀ y ∈ rest, (c'.tail y).length ≤ (c.tail y).length)
    (hreleased : (released.map fun y => 1 + (c'.tail y).length).sum ≤ (c.tail x).length) :
    c'.backlog ≤ c.backlog - 1 := by
  have hrest : (rest.map fun y => 1 + (c'.tail y).length).sum ≤
      (rest.map fun y => 1 + (c.tail y).length).sum := by
    apply List.sum_le_sum
    intro y hy
    exact Nat.add_le_add_left (htails y hy) 1
  unfold backlog
  rw [hqueue, hqueue', List.map_append, List.sum_append, List.map_cons, List.sum_cons]
  omega

theorem drains_leave {rest gone : List L2Fetch} (hqueue : c.l2IcntQueue = x :: rest)
    (hc' : c' = { c with
      l2IcntQueue := rest
      responseWaiters := Function.update c.responseWaiters x none
      log := c.log ++ gone.map L2Event.delivered }) : c.Drains c' := by
  subst hc'
  refine ⟨List.prefix_append _ _, ?_⟩
  apply backlog_lt hqueue (List.append_nil rest).symm
  · intro y _
    unfold tail
    dsimp only
    rcases eq_or_ne y x with rfl | hne
    · rw [Function.update_self]
      exact Nat.zero_le _
    · rw [Function.update_of_ne hne]
  · exact Nat.zero_le _

theorem Coalescing.drains_release {rest remaining : List L2Fetch} {next : L2Fetch}
    (h : c.Coalescing hand) (hqueue : c.l2IcntQueue = x :: rest)
    (hwaiting : c.responseWaiters x = some (next :: remaining))
    (hc' : c' = { c with
      l2IcntQueue := rest ++ [next]
      responseWaiters := Function.update (Function.update c.responseWaiters x none) next
        (if remaining.isEmpty then none else some remaining)
      log := c.log ++ [L2Event.delivered x, .responded next] }) : c.Drains c' := by
  have htail : c.tail x = next :: remaining := by
    unfold tail
    rw [hwaiting]
    rfl
  have hhead : x ∈ c.l2IcntQueue := by
    rw [hqueue]
    exact List.mem_cons_self
  have hnext := (h.tail_fresh hhead).2.1 next (by rw [htail]; exact List.mem_cons_self)
  have hrest : ∀ y ∈ rest, y ≠ next := by
    rintro y hy rfl
    apply hnext.1
    have hmem : y ∈ c.l2IcntQueue := by
      rw [hqueue]
      exact List.mem_cons_of_mem _ hy
    exact (h.response_alone hmem hnext.2.2).1
  subst hc'
  refine ⟨List.prefix_append _ _, ?_⟩
  apply backlog_lt hqueue rfl
  · intro y hy
    unfold tail
    dsimp only
    rw [Function.update_of_ne (hrest y hy)]
    rcases eq_or_ne y x with rfl | hne
    · rw [Function.update_self]
      exact Nat.zero_le _
    · rw [Function.update_of_ne hne]
  · rw [htail]
    unfold tail
    simp only [List.map_cons, List.map_nil, List.sum_cons, List.sum_nil, Function.update_self,
      List.length_cons]
    cases remaining with
    | nil => exact le_rfl
    | cons r rest =>
      simp only [List.isEmpty_cons, Bool.false_eq_true, if_false, Option.getD_some,
        List.length_cons]
      omega

end SubPartition

end FlashGpuSim
