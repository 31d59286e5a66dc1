import FlashGpuSim.L2.CoalescedResponses

/-!
Coalescing over whole runs of a sub-partition. Every operation is a sequence of the moves of
requests between stations, as long as the writes and atomics that are pushed stay within
one sector.
-/

namespace FlashGpuSim

open Lib

/-- The assertions of the coalescer and of its callers. -/
def L2Failure.ofCoalescer : L2Failure → Bool
  | noGroup | groupExists | activeExists | notOpened | responseWaitersExist
  | emptyResponseWaiters | responseQueueFull => true
  | queueOverflow | queueEmpty | noRequest | noSectors | sectorChildren | ropWidth => false

namespace L2Fetch

variable {mf : L2Fetch} {id : Nat}

/-- The children of a request take the pointers that were given to them. -/
theorem breakdown_spec : Outcome (mf.breakdown id)
    (fun reqs => (∀ r ∈ reqs, r = mf ∨ id ≤ r.id ∧ r.id < id + 4) ∧ reqs.Nodup)
    (fun e => e.ofCoalescer = false) := by
  unfold breakdown
  split
  · refine ⟨?_, List.nodup_singleton mf⟩
    exact fun r hr => .inl (List.mem_singleton.mp hr)
  · apply outcome_bind
    apply outcome_require
    · intro _
      refine ⟨?_, ?_⟩
      · intro r hr
        obtain ⟨i, hi, rfl⟩ := List.mem_map.mp hr
        have hlt := List.mem_range.mp (List.mem_filter.mp hi).1
        exact .inr ⟨Nat.le_add_right id i, Nat.add_lt_add_left hlt id⟩
      · apply List.Nodup.map
        · intro i j hij
          exact Nat.add_left_cancel (congrArg (fun r : L2Fetch => r.id) hij)
        · exact List.nodup_range.filter _
    · exact fun _ => rfl

end L2Fetch

namespace SubPartition

variable {cfg : SubPartitionConfig} {c c' : SubPartition cfg} {hand : List L2Fetch}
  {m r x mf : L2Fetch} {cycle : Nat}

/-! ### Requests come in -/

theorem coalesceL2TmaRequest_spec (h : c.Coalescing (mf :: hand))
    (hon : cfg.l2TmaRequestCoalescing = true) :
    Outcome (c.coalesceL2TmaRequest mf)
      (fun result => match result with
        | none => mf.isTmaSector = true → c.coalescer.activeMaster mf.sectorAddr = none
        | some c' => c'.Coalescing hand)
      (fun _ => False) := by
  unfold coalesceL2TmaRequest
  rw [hon]
  cases hsector : mf.isTmaSector with
  | false => exact nofun
  | true =>
    cases hactive : c.coalescer.activeMaster mf.sectorAddr with
    | none =>
      rw [SectorCoalescer.admitWaiter_none hactive]
      exact fun _ => rfl
    | some m =>
      obtain ⟨⟨g, hg⟩, -⟩ := h.active _ m hactive
      rw [SectorCoalescer.admitWaiter_some hactive hg]
      exact h.join hsector hactive hg rfl

theorem enqueueL2Request_spec (h : c.Coalescing (mf :: hand))
    (hon : cfg.l2TmaRequestCoalescing = true)
    (hfree : mf.isTmaSector = true → c.coalescer.activeMaster mf.sectorAddr = none) :
    Outcome (c.enqueueL2Request mf) (fun c' => c'.Coalescing hand)
      (fun e => e.ofCoalescer = false) := by
  have hnew := (h.hand_fresh (x := mf) List.mem_cons_self).1
  have hwithin := h.within mf List.mem_cons_self
  have hnogroup : c.coalescer.groups mf = none := by
    rw [Option.eq_none_iff_forall_ne_some]
    intro g hg
    exact hnew (mem_admitted_of_entered (h.groups mf g hg).1)
  -- Whatever the registration does, the request then enters the queue.
  have hpush : ∀ coalescer : SectorCoalescer L2Fetch NewAddrType,
      (∀ m, m ≠ mf → coalescer.groups m = c.coalescer.groups m) →
      (coalescer.groups mf = if mf.isTmaSector then some ⟨mf.sectorAddr, []⟩ else none) →
      (∀ a m, coalescer.activeMaster a = some m →
        (m = mf ∧ a = mf.sectorAddr ∧ mf.isTmaSector = true) ∨
        (c.coalescer.activeMaster a = some m ∧ ¬ mf.Alters a ∧
          ¬ (mf.isTmaSector = true ∧ mf.sectorAddr = a))) →
      c.registerL2TmaRequest mf = .ok { c with coalescer := coalescer } →
      Outcome (c.enqueueL2Request mf) (fun c' => c'.Coalescing hand)
        (fun e => e.ofCoalescer = false) := by
    intro coalescer hgroups hgroup hactive hregister
    unfold enqueueL2Request
    rw [hregister]
    apply outcome_bind
    apply outcome_bind
    apply outcome_require
    · exact fun _ => h.enter hgroups hgroup hactive rfl
    · exact fun _ => rfl
  have haddr : ∀ a m, c.coalescer.activeMaster a = some m → m.sectorAddr = a :=
    fun a m ha => (h.active a m ha).2.addr
  cases hkind : mf.isWrite || mf.isAtomic with
  | true =>
    have hsector : mf.isTmaSector = false := by
      unfold L2Fetch.isTmaSector
      rcases Bool.or_eq_true_iff.mp hkind with hw | ha
      · rw [hw]
        rfl
      · rw [ha]
        simp
    apply hpush (c.coalescer.closeAddress mf.sectorAddr)
    · exact fun _ _ => rfl
    · rw [hsector]
      exact hnogroup
    · intro a m ha
      obtain ⟨hne, ha⟩ := SectorCoalescer.closeAddress_some ha
      refine .inr ⟨ha, ?_, ?_⟩
      · rw [← haddr a m ha]
        intro halters
        exact hne ((hwithin.alters halters).2.trans (haddr a m ha)).symm
      · rw [hsector]
        exact fun hboth => nomatch hboth.1
    · unfold registerL2TmaRequest
      rw [hon, hkind]
      rfl
  | false =>
    have hquiet : ∀ a m, c.coalescer.activeMaster a = some m → ¬ mf.Alters a := by
      intro a m ha halters
      rw [← haddr a m ha] at halters
      have hmarked := (hwithin.alters halters).1
      rw [← Bool.or_eq_true_iff, hkind] at hmarked
      cases hmarked
    cases hsector : mf.isTmaSector with
    | false =>
      apply hpush c.coalescer
      · exact fun _ _ => rfl
      · rw [hsector]
        exact hnogroup
      · intro a m ha
        rw [hsector]
        exact .inr ⟨ha, hquiet a m ha, fun hboth => nomatch hboth.1⟩
      · unfold registerL2TmaRequest
        rw [hon, hkind, hsector]
        rfl
    | true =>
      have hnone := hfree hsector
      apply hpush
        { activeMaster := Function.update c.coalescer.activeMaster mf.sectorAddr (some mf)
          groups := Function.update c.coalescer.groups mf (some ⟨mf.sectorAddr, []⟩) }
      · exact fun m hm => Function.update_of_ne hm _ _
      · rw [hsector]
        exact Function.update_self _ _ _
      · intro a m ha
        dsimp only at ha
        rcases eq_or_ne a mf.sectorAddr with rfl | hne
        · rw [Function.update_self] at ha
          cases ha
          exact .inl ⟨rfl, rfl, hsector⟩
        · rw [Function.update_of_ne hne] at ha
          exact .inr ⟨ha, hquiet a m ha, fun hboth => hne hboth.2.symm⟩
      · unfold registerL2TmaRequest
        rw [hon, hkind, hsector, SectorCoalescer.admit_new hnone hnogroup]
        rfl

theorem pushRopDelay_spec {readyCycle : Nat} {remote : Bool} (h : c.Coalescing (mf :: hand)) :
    (c.pushRopDelay mf readyCycle remote).Coalescing hand := by
  unfold pushRopDelay
  have hinsert : ∀ queue : List RopEntry,
      ((queue.orderedInsert RopEntry.earlier ⟨readyCycle, c.nextSequence, mf⟩).map
        RopEntry.item).Perm (mf :: queue.map RopEntry.item) :=
    fun queue => (List.perm_orderedInsert _ _ queue).map _
  cases remote with
  | true =>
    apply h.move rfl
    have hperm := hinsert c.ropRemote
    rw [List.perm_iff_count] at hperm ⊢
    intro y
    have hcount := hperm y
    simp only [ropItems, List.cons_append, List.count_append, List.count_cons]
      at hcount ⊢
    omega
  | false =>
    apply h.move rfl
    have hperm := hinsert c.ropLocal
    rw [List.perm_iff_count] at hperm ⊢
    intro y
    have hcount := hperm y
    simp only [ropItems, List.cons_append, List.count_append, List.count_cons] at hcount ⊢
    omega

theorem pushRequest_spec (h : c.Coalescing (mf :: hand))
    (hon : cfg.l2TmaRequestCoalescing = true) :
    Outcome (c.pushRequest mf cycle) (fun c' => c'.Coalescing hand)
      (fun e => e.ofCoalescer = false) := by
  unfold pushRequest
  dsimp only
  split
  · apply outcome_bind
    apply (coalesceL2TmaRequest_spec h hon).mono
    · intro result hresult
      cases result with
      | none => exact enqueueL2Request_spec h hon hresult
      | some c' => exact hresult
    · exact fun _ => False.elim
  · exact pushRopDelay_spec h

/-- The requests that a push hands over. -/
theorem requests_spec (cfg : SubPartitionConfig) (mf : L2Fetch) (id : Nat) : Outcome (requests cfg mf id)
    (fun reqs => (∀ r ∈ reqs, r = mf ∨ id ≤ r.id ∧ r.id < id + 4) ∧ reqs.Nodup)
    (fun e => e.ofCoalescer = false) := by
  unfold requests
  cases cfg.cacheType with
  | sector => exact L2Fetch.breakdown_spec
  | normal => exact ⟨fun r hr => .inl (List.mem_singleton.mp hr), List.nodup_singleton mf⟩

def WithinSectors : Except L2Failure (List L2Fetch) → Prop
  | .ok reqs => ∀ r ∈ reqs, r.WithinSector
  | .error _ => True

instance : (result : Except L2Failure (List L2Fetch)) → Decidable (WithinSectors result)
  | .ok reqs => inferInstanceAs (Decidable (∀ r ∈ reqs, r.WithinSector))
  | .error _ => .isTrue trivial

/-- The writes and atomics that an operation pushes enter the queue marked as such, each
within one sector. -/
def Confined (c : SubPartition cfg) : L2Op → Prop
  | .push mf _ => WithinSectors (requests cfg mf (c.nextId + 1))
  | .enqueueReadyRop _ | .take | .respond _ | .pop _ | .top => True

instance (c : SubPartition cfg) : (o : L2Op) → Decidable (c.Confined o)
  | .push mf _ => inferInstanceAs (Decidable (WithinSectors (requests cfg mf (c.nextId + 1))))
  | .enqueueReadyRop _ | .take | .respond _ | .pop _ | .top => .isTrue trivial

theorem push_spec (h : c.Coalescing []) (hon : cfg.l2TmaRequestCoalescing = true)
    (hnew : mf.id = c.nextId) (hconfined : c.Confined (.push mf cycle)) :
    Outcome (c.push mf cycle) (fun c' => c'.Coalescing []) (fun e => e.ofCoalescer = false) := by
  unfold push
  apply outcome_bind
  have hspec := requests_spec cfg mf (c.nextId + 1)
  cases hreqs : requests cfg mf (c.nextId + 1) with
  | error e =>
    rw [hreqs] at hspec
    exact hspec
  | ok reqs =>
    have hwithin : WithinSectors (requests cfg mf (c.nextId + 1)) := hconfined
    rw [hreqs] at hspec hwithin
    obtain ⟨hids, hnodup⟩ := hspec
    rw [outcome_ok]
    apply outcome_foldlM (fun todo (c : SubPartition cfg) => c.Coalescing todo)
    · exact fun r rest s hs => pushRequest_spec hs hon
    · apply h.receive rfl (Nat.le_add_right _ _) _ hnodup hwithin
      intro r hr
      rcases hids r hr with rfl | ⟨hlow, hhigh⟩
      · omega
      · omega

/-! ### The delay stage -/

theorem popReady_spec {popped : SubPartition cfg} (h : c.Coalescing [])
    (hpop : c.popReady cycle = some (mf, popped)) : popped.Coalescing [mf] := by
  unfold popReady at hpop
  split at hpop
  · cases hpop
  · cases hlocal : c.ropLocal with
    | nil =>
      rw [hlocal] at hpop
      cases hpop
    | cons x rest =>
      rw [hlocal] at hpop
      cases hpop
      apply h.move rfl
      unfold ropItems
      rw [hlocal]
      exact .refl _
  · cases hremote : c.ropRemote with
    | nil =>
      rw [hremote] at hpop
      cases hpop
    | cons y rest =>
      rw [hremote] at hpop
      cases hpop
      apply h.move rfl
      have hitems : c.ropItems =
          c.ropLocal.map RopEntry.item ++ y.item :: rest.map RopEntry.item := by
        unfold ropItems
        rw [hremote]
        rfl
      have hperm : (y.item :: (c.ropLocal.map RopEntry.item ++ rest.map RopEntry.item)).Perm
          (c.ropLocal.map RopEntry.item ++ y.item :: rest.map RopEntry.item) :=
        List.perm_middle.symm
      rw [List.nil_append, hitems]
      exact hperm

theorem ropSectors_spec : Outcome (ropSectors mf) (fun _ => True)
    (fun e => e.ofCoalescer = false) := by
  unfold ropSectors
  apply outcome_bind
  apply outcome_require
  · exact fun _ => trivial
  · exact fun _ => rfl

theorem widthAllows_spec {items sectors : Nat} : Outcome (widthAllows cfg mf items sectors)
    (fun _ => True) (fun e => e.ofCoalescer = false) := by
  unfold widthAllows
  apply outcome_bind
  apply ropSectors_spec.imp
  intro n _
  split
  · exact trivial
  · apply outcome_bind
    apply outcome_require
    · exact fun _ => trivial
    · exact fun _ => rfl

/-- The requests in the delay stage. -/
def ropLength (c : SubPartition cfg) : Nat := c.ropLocal.length + c.ropRemote.length

theorem popReady_length {popped : SubPartition cfg} (hpop : c.popReady cycle = some (mf, popped)) :
    c.ropLength = popped.ropLength + 1 := by
  unfold popReady at hpop
  unfold ropLength
  split at hpop
  · cases hpop
  · cases hlocal : c.ropLocal with
    | nil =>
      rw [hlocal] at hpop
      cases hpop
    | cons x rest =>
      rw [hlocal] at hpop
      cases hpop
      rw [List.length_cons]
      exact Nat.succ_add _ _
  · cases hremote : c.ropRemote with
    | nil =>
      rw [hremote] at hpop
      cases hpop
    | cons y rest =>
      rw [hremote] at hpop
      cases hpop
      rfl

theorem coalesceL2TmaRequest_length (hok : c.coalesceL2TmaRequest mf = .ok (some c')) :
    c'.ropLength = c.ropLength := by
  unfold coalesceL2TmaRequest at hok
  split at hok
  · cases hok
  · obtain ⟨result, -, hok⟩ := bind_eq_ok hok
    cases result with
    | none => cases hok
    | some result =>
      cases hok
      rfl

theorem enqueueL2Request_length (hok : c.enqueueL2Request mf = .ok c') :
    c'.ropLength = c.ropLength := by
  unfold enqueueL2Request at hok
  obtain ⟨c₁, hregister, hok⟩ := bind_eq_ok hok
  obtain ⟨_, -, hok⟩ := bind_eq_ok hok
  cases hok
  unfold registerL2TmaRequest at hregister
  split at hregister
  · cases hregister
    rfl
  · split at hregister
    · cases hregister
      rfl
    · split at hregister
      · cases hregister
        rfl
      · obtain ⟨_, -, hregister⟩ := bind_eq_ok hregister
        obtain ⟨_, -, hregister⟩ := bind_eq_ok hregister
        cases hregister
        rfl

/-- The loop ends by itself: as many turns as there are requests are enough. -/
theorem ropService_turns {turns turns' items sectors : Nat} (h : c.ropLength ≤ turns)
    (h' : c.ropLength ≤ turns') :
    ropService cycle turns c items sectors = ropService cycle turns' c items sectors := by
  have hstop : ∀ (c : SubPartition cfg) n items sectors, c.ropLength = 0 →
      ropService cycle n c items sectors = .ok c := by
    intro c n items sectors hzero
    cases n with
    | zero => rfl
    | succ n =>
      unfold ropService
      cases hpop : c.popReady cycle with
      | none => rfl
      | some next =>
        have hlength := popReady_length hpop
        omega
  induction turns generalizing c turns' items sectors with
  | zero =>
    have hzero : c.ropLength = 0 := Nat.le_zero.mp h
    rw [hstop c 0 items sectors hzero, hstop c turns' items sectors hzero]
  | succ turns ih =>
    cases turns' with
    | zero =>
      have hzero : c.ropLength = 0 := Nat.le_zero.mp h'
      rw [hstop c 0 items sectors hzero, hstop c (turns + 1) items sectors hzero]
    | succ turns' =>
      unfold ropService
      cases hpop : c.popReady cycle with
      | none => rfl
      | some next =>
        obtain ⟨mf, popped⟩ := next
        have hlength := popReady_length hpop
        dsimp only
        apply bind_congr_ok
        intro result hresult
        cases result with
        | some joined =>
          have hjoined := coalesceL2TmaRequest_length hresult
          exact ih (by omega) (by omega)
        | none =>
          dsimp only
          apply bind_congr_ok
          intro fits _
          split
          · rfl
          · split
            · rfl
            · apply bind_congr_ok
              intro n _
              apply bind_congr_ok
              intro accepted haccepted
              have henqueued := enqueueL2Request_length haccepted
              exact ih (by omega) (by omega)

theorem ropService_spec {turns items sectors : Nat} (h : c.Coalescing [])
    (hon : cfg.l2TmaRequestCoalescing = true) :
    Outcome (ropService cycle turns c items sectors) (fun c' => c'.Coalescing [])
      (fun e => e.ofCoalescer = false) := by
  induction turns generalizing c items sectors with
  | zero => exact h
  | succ turns ih =>
    unfold ropService
    cases hpop : c.popReady cycle with
    | none => exact h
    | some next =>
      obtain ⟨mf, popped⟩ := next
      have hpopped := popReady_spec h hpop
      apply outcome_bind
      apply (coalesceL2TmaRequest_spec hpopped hon).mono
      · intro result hresult
        cases result with
        | some joined => exact ih hresult
        | none =>
          apply outcome_bind
          apply widthAllows_spec.imp
          intro fits _
          split
          · exact h
          · split
            · exact h
            · apply outcome_bind
              apply ropSectors_spec.imp
              intro n _
              apply outcome_bind
              apply (enqueueL2Request_spec hpopped hon hresult).imp
              exact fun c' hc' => ih hc'
      · exact fun _ => False.elim

theorem enqueueReadyRop_spec (h : c.Coalescing []) (hon : cfg.l2TmaRequestCoalescing = true) :
    Outcome (c.enqueueReadyRop cycle) (fun c' => c'.Coalescing [])
      (fun e => e.ofCoalescer = false) := by
  unfold enqueueReadyRop
  apply outcome_bind
  apply outcome_require
  · exact fun _ => ropService_spec h hon
  · exact fun _ => rfl

/-! ### Responses -/

theorem respond_spec (h : c.Coalescing []) (hon : cfg.l2TmaRequestCoalescing = true)
    (hservice : x ∈ c.inService ∨ x.accessType ≠ .tmaAccR)
    (hroom : c.l2IcntQueue.length < cfg.l2IcntLength) :
    Outcome (c.step (.respond x)) (fun c' => c'.Coalescing []) (fun _ => False) := by
  have hx : isTma x = true → x ∈ c.inService :=
    fun htma => hservice.resolve_right (fun hne => hne (of_decide_eq_true htma))
  have hnowaiters : c.responseWaiters x = none :=
    h.no_waiters (fun htma => (h.service_alone (hx htma) htma).2.1)
  have hgroupTma : ∀ g, c.coalescer.groups x = some g → isTma x = true :=
    fun g hg => isTma_of_sector (h.groups x g hg).2
  -- Whatever the response takes with it, it then enters the queue.
  have hpush : ∀ (coalescer : SectorCoalescer L2Fetch NewAddrType)
      (waiters : L2Fetch → Option (List L2Fetch)),
      coalescer.groups = Function.update c.coalescer.groups x none →
      (∀ a m, coalescer.activeMaster a = some m → c.coalescer.activeMaster a = some m ∧ m ≠ x) →
      (∀ y, y ≠ x → waiters y = c.responseWaiters y) →
      (c.coalescer.groups x = none → waiters x = none) →
      (∀ g, c.coalescer.groups x = some g → (waiters x).getD [] = g.waiters ∧
        waiters x ≠ some []) →
      ({ c with inService := c.inService.erase x } : SubPartition cfg).finalizeL2TmaCoalescedResponse
        x = .ok
        ({ c with
          inService := c.inService.erase x
          coalescer := coalescer
          responseWaiters := waiters } : SubPartition cfg) →
      Outcome (c.step (.respond x)) (fun c' => c'.Coalescing []) (fun _ => False) := by
    intro coalescer waiters hgroups hactive hwaiters hnone hsome hfinal
    unfold step enqueueL2Response
    dsimp only
    rw [hfinal]
    apply outcome_bind
    apply outcome_bind
    apply outcome_require
    · exact fun _ => h.respond hx hroom hgroups hactive hwaiters hnone hsome rfl
    · intro hfull
      exact of_decide_eq_false hfull hroom
  cases hg : c.coalescer.groups x with
  | none =>
    apply hpush c.coalescer c.responseWaiters
    · rw [← hg, Function.update_eq_self]
    · intro a m ha
      refine ⟨ha, ?_⟩
      rintro rfl
      obtain ⟨⟨g, hg'⟩, -⟩ := h.active a m ha
      rw [hg] at hg'
      cases hg'
    · exact fun _ _ => rfl
    · exact fun _ => hnowaiters
    · intro g hg'
      rw [hg] at hg'
      cases hg'
    · unfold finalizeL2TmaCoalescedResponse
      dsimp only
      split
      · rfl
      · rw [SectorCoalescer.closeMaster_none hg]
  | some g =>
    have htma := hgroupTma g hg
    cases hclose : c.coalescer.closeMaster x with
    | none =>
      unfold SectorCoalescer.closeMaster at hclose
      rw [hg] at hclose
      cases hclose
    | some result =>
      obtain ⟨coalescer, waiters⟩ := result
      obtain ⟨rfl, hgroups, hback, -, hclosed⟩ := SectorCoalescer.closeMaster_some hg hclose
      obtain ⟨-, g', hg', haddr, -⟩ := h.gathers (hx htma) (h.groups x g hg) List.mem_cons_self
      rw [hg] at hg'
      cases hg'
      apply hpush coalescer (if g.waiters.isEmpty then c.responseWaiters
        else Function.update c.responseWaiters x (some g.waiters)) hgroups
      · intro a m ha
        refine ⟨hback a m ha, ?_⟩
        rintro rfl
        rw [← (h.active a m (hback a m ha)).2.addr, ← haddr] at ha
        exact hclosed ha
      · intro y hy
        split
        · rfl
        · exact Function.update_of_ne hy _ _
      · intro hnone
        rw [hg] at hnone
        cases hnone
      · intro g' hg'
        rw [hg] at hg'
        cases hg'
        cases hlist : g.waiters with
        | nil =>
          rw [List.isEmpty_nil, if_pos rfl, hnowaiters]
          exact ⟨rfl, nofun⟩
        | cons r rest =>
          rw [List.isEmpty_cons, if_neg nofun, Function.update_self]
          exact ⟨rfl, nofun⟩
      · unfold finalizeL2TmaCoalescedResponse
        dsimp only
        rw [hon, decide_eq_false (not_not_intro (of_decide_eq_true htma)), hclose]
        dsimp only [Bool.not_true, Bool.or_self]
        rw [require_pass (by rw [hnowaiters]; rfl)]
        rfl

theorem extract_none (h : c.responseWaiters x = none) : c.extract x = c := by
  unfold extract
  split
  · rfl
  · rw [h]

theorem releaseNext_none (h : c.responseWaiters x = none) : c.releaseNext x = .ok c := by
  unfold releaseNext
  split
  · rfl
  · rw [h]

/-- Waiters at a response have no groups of their own and wait at no other response. -/
theorem Coalescing.waiter {q : List L2Fetch} (h : c.Coalescing [])
    (hq : c.responseWaiters x = some q) (hr : r ∈ q) :
    isTma r = true ∧ c.coalescer.groups r = none ∧ c.responseWaiters r = none := by
  obtain ⟨-, hx, m, hm, hxm⟩ := h.tails x q hq
  obtain ⟨hg, hlist, hfresh, -⟩ := h.next hx hm hxm
  have htail : c.tail x = q := by
    unfold tail
    rw [hq]
    rfl
  rw [htail] at hlist hfresh
  have hrm : r ∈ convoy c.log m := by
    rw [hlist]
    exact List.mem_append_right _ (List.mem_cons_of_mem _ hr)
  refine ⟨h.isTma_convoy hm hrm, ?_, ?_⟩
  · rw [Option.eq_none_iff_forall_ne_some]
    intro g hgr
    have hmaster := h.groups r g hgr
    rw [convoy_unique h.admitted_nodup hmaster hm List.mem_cons_self hrm, hg] at hgr
    cases hgr
  · apply h.no_waiters
    intro htma hqueue
    exact hfresh r hr (h.response_alone hqueue htma).1

/-- All waiters leave with a multicast response. -/
theorem extract_spec {rest q : List L2Fetch} (h : c.Coalescing [])
    (hon : cfg.l2TmaRequestCoalescing = true) (hqueue : c.l2IcntQueue = x :: rest)
    (hq : c.responseWaiters x = some q) (htma : isTma x = true)
    (hc' : c' = { c with l2IcntQueue := rest, log := c.log ++ [L2Event.delivered x] }) :
    (c'.extract x).Coalescing [] ∧ c.Drains (c'.extract x) := by
  have hleaving : c.leaving x = x :: q := by
    unfold leaving tail
    rw [if_pos htma, hq]
    rfl
  have hgone : (x :: q).filter isTma = c.leaving x := by
    rw [hleaving, List.filter_eq_self]
    intro r hr
    rcases List.mem_cons.mp hr with rfl | hr
    · exact htma
    · exact (h.waiter hq hr).1
  have hextract : c'.extract x = { c with
      l2IcntQueue := rest
      responseWaiters := Function.update c.responseWaiters x none
      log := c.log ++ (x :: q).map L2Event.delivered } := by
    subst hc'
    unfold extract
    dsimp only
    rw [hon, decide_eq_false (not_not_intro (of_decide_eq_true htma)), hq]
    simp
  exact ⟨h.leave hqueue hgone hextract, drains_leave hqueue hextract⟩

/-- The next waiter is released behind a response. -/
theorem releaseNext_spec {rest q : List L2Fetch} (h : c.Coalescing [])
    (hon : cfg.l2TmaRequestCoalescing = true) (hqueue : c.l2IcntQueue = x :: rest)
    (hq : c.responseWaiters x = some q) (htma : isTma x = true)
    (hc' : c' = { c with l2IcntQueue := rest, log := c.log ++ [L2Event.delivered x] }) :
    Outcome (c'.releaseNext x) (fun c' => c'.Coalescing [] ∧ c.Drains c') (fun _ => False) := by
  cases q with
  | nil => exact absurd rfl (h.tails x [] hq).1
  | cons next remaining =>
    obtain ⟨hnextTma, hnogroup, hnowaiters⟩ := h.waiter hq List.mem_cons_self
    have hroom := h.room
    rw [hqueue, List.length_cons] at hroom
    have hsame : Function.update (Function.update c.responseWaiters x none) next none =
        Function.update c.responseWaiters x none := by
      apply Function.update_eq_self_iff.mpr
      rcases eq_or_ne next x with rfl | hne
      · rw [Function.update_self]
      · rw [Function.update_of_ne hne]
        exact hnowaiters.symm
    have hwaiters : Function.update (Function.update c.responseWaiters x none) next
        (if remaining.isEmpty then none else some remaining) =
        if remaining.isEmpty then Function.update c.responseWaiters x none
        else Function.update (Function.update c.responseWaiters x none) next (some remaining) := by
      split
      · exact hsame
      · rfl
    have hreleased := h.release hqueue hq rfl
    have hdrains := h.drains_release hqueue hq rfl
    rw [hwaiters] at hreleased hdrains
    subst hc'
    unfold releaseNext
    dsimp only
    rw [hon, decide_eq_false (not_not_intro (of_decide_eq_true htma)), hq]
    dsimp only [Bool.not_true, Bool.or_self]
    apply outcome_bind
    apply outcome_require
    · intro _
      unfold enqueueL2Response finalizeL2TmaCoalescedResponse
      dsimp only
      rw [SectorCoalescer.closeMaster_none hnogroup, ite_self]
      apply outcome_bind
      apply outcome_bind
      apply outcome_require
      · intro _
        dsimp only
        rw [List.append_assoc]
        exact ⟨hreleased, hdrains⟩
      · intro hfull
        exact of_decide_eq_false hfull (by dsimp only; omega)
    · intro hfull
      exact of_decide_eq_false hfull (by omega)

theorem pop_spec {multicast : Bool} (h : c.Coalescing [])
    (hon : cfg.l2TmaRequestCoalescing = true) :
    Outcome (c.pop multicast) (fun c' => c'.Coalescing [] ∧ c.Drains c') (fun _ => False) := by
  unfold pop
  cases hqueue : c.l2IcntQueue with
  | nil =>
    refine ⟨h, List.prefix_rfl, ?_⟩
    unfold backlog
    rw [hqueue]
    exact Nat.zero_le _
  | cons x rest =>
    dsimp only
    cases hq : c.responseWaiters x with
    | none =>
      have hpopped : ∀ gone : List L2Fetch, gone.filter isTma = c.leaving x →
          ({ c with
            l2IcntQueue := rest
            log := c.log ++ gone.map L2Event.delivered } : SubPartition cfg).Coalescing [] ∧
          c.Drains { c with
            l2IcntQueue := rest
            log := c.log ++ gone.map L2Event.delivered } := by
        intro gone hgone
        constructor
        · apply h.leave hqueue hgone
          rw [← hq, Function.update_eq_self]
        · apply drains_leave hqueue
          rw [← hq, Function.update_eq_self]
      rw [extract_none (by exact hq), releaseNext_none (by exact hq), ite_self, outcome_ok]
      cases hwrb : x.isWriteback with
      | true =>
        apply hpopped []
        unfold leaving
        rw [if_neg]
        · rfl
        · intro htma
          unfold L2Fetch.isWriteback at hwrb
          rw [of_decide_eq_true htma] at hwrb
          cases hwrb
      | false =>
        apply hpopped [x]
        unfold leaving tail
        rw [hq, List.filter_cons]
        rfl
    | some q =>
      obtain ⟨hne, hx, m, hm, hxm⟩ := h.tails x q hq
      have htma := h.isTma_convoy hm hxm
      have hwrb : x.isWriteback = false := by
        unfold L2Fetch.isWriteback
        rw [of_decide_eq_true htma]
        rfl
      rw [hwrb]
      cases multicast with
      | true => exact extract_spec h hon hqueue hq htma rfl
      | false => exact releaseNext_spec h hon hqueue hq htma rfl

theorem top_spec (h : c.Coalescing []) : c.top.Coalescing [] := by
  unfold top
  cases hqueue : c.l2IcntQueue with
  | nil => exact h
  | cons x rest =>
    dsimp only
    split
    · rename_i hwrb
      have htma : isTma x = false := by
        apply decide_eq_false
        intro ht
        unfold L2Fetch.isWriteback at hwrb
        rw [ht] at hwrb
        cases hwrb
      have hnone : c.responseWaiters x = none :=
        h.no_waiters (fun ht => by rw [htma] at ht; cases ht)
      have hgone : ([] : List L2Fetch).filter isTma = c.leaving x := by
        unfold leaving
        rw [htma]
        rfl
      apply h.leave hqueue hgone
      rw [← hnone, Function.update_eq_self, List.map_nil, List.append_nil]
    · exact h

/-! ### Runs -/

theorem step_spec {o : L2Op} (h : c.Coalescing []) (hon : cfg.l2TmaRequestCoalescing = true)
    (hallowed : c.allowed o) (hconfined : c.Confined o) :
    Outcome (c.step o) (fun c' => c'.Coalescing []) (fun e => e.ofCoalescer = false) := by
  cases o with
  | push mf cycle => exact push_spec h hon hallowed hconfined
  | enqueueReadyRop cycle => exact enqueueReadyRop_spec h hon
  | take =>
    unfold step
    cases hqueue : c.icntL2Queue with
    | nil => exact absurd hqueue hallowed
    | cons x rest => exact h.take hqueue rfl
  | respond x =>
    apply (respond_spec h hon hallowed.1 hallowed.2).mono
    · exact fun _ => id
    · exact fun _ => False.elim
  | pop multicast =>
    apply (pop_spec h hon).mono
    · exact fun _ => And.left
    · exact fun _ => False.elim
  | top => exact top_spec h

theorem coalescing_init : (init cfg).Coalescing [] where
  ids := fun _ hx => absurd hx List.not_mem_nil
  arrivals := .nil
  stations := .nil
  known := fun _ hx => absurd hx List.not_mem_nil
  responses := fun _ hx => absurd hx List.not_mem_nil
  masters := fun _ hm => absurd hm.1 List.not_mem_nil
  groups := fun _ _ h => nomatch h
  tails := fun _ _ h => nomatch h
  joined := fun _ _ hx => absurd hx List.not_mem_nil
  active := fun _ _ h => nomatch h
  room := Nat.zero_le _
  joins := fun l₁ l₂ _ _ hlog => by cases l₁ <;> cases hlog
  behind := fun l₁ l₂ _ _ hlog => by cases l₁ <;> cases hlog
  within := fun _ hx => absurd hx List.not_mem_nil

theorem Coalescing.order (h : c.Coalescing hand) (hm : IsMaster c.log m) :
    deliveredOf c.log m <+: convoy c.log m := by
  cases h.masters m hm with
  | gathering g _ _ hlist hplace hfresh _ =>
    have hnone : deliveredOf c.log m = [] := by
      apply List.filter_eq_nil_iff.mpr
      intro y hy hmem
      rw [decide_eq_true_eq, hlist, List.mem_cons] at hmem
      rcases hmem with rfl | hmem
      · exact h.undelivered (isTma_of_sector hm.2) hplace hy
      · exact hfresh y hmem (List.mem_append_right _ hy)
    rw [hnone]
    exact List.nil_prefix
  | leaving before x waiting _ hlist _ _ hd _ _ =>
    rw [hd, hlist]
    exact List.prefix_append _ _
  | gone _ hd _ => rw [hd]

theorem Coalescing.lossless (h : c.Coalescing hand) (hm : IsMaster c.log m) :
    (m ∈ c.icntL2Queue ∨ m ∈ c.inService) ∨
      (∃ x ∈ c.l2IcntQueue, deliveredOf c.log m ++ [x] <+: convoy c.log m) ∨
      deliveredOf c.log m = convoy c.log m := by
  cases h.masters m hm with
  | gathering _ _ _ _ hplace _ _ => exact .inl hplace
  | leaving before x waiting _ hlist hx _ hd _ _ =>
    refine .inr (.inl ⟨x, hx, ?_⟩)
    rw [hd, hlist]
    exact ⟨waiting, (List.append_cons before x waiting).symm⟩
  | gone _ hd _ => exact .inr (.inr hd)

/-- As many pops as there are responses to leave empty the queue. -/
theorem pops_spec {multicasts : List Bool} (h : c.Coalescing [])
    (hon : cfg.l2TmaRequestCoalescing = true) :
    Outcome (multicasts.foldlM (fun c multicast => c.step (.pop multicast)) c)
      (fun c' => c'.Coalescing [] ∧ c.log <+: c'.log ∧
        c'.backlog ≤ c.backlog - multicasts.length)
      (fun _ => False) := by
  induction multicasts generalizing c with
  | nil => exact ⟨h, List.prefix_rfl, le_rfl⟩
  | cons multicast rest ih =>
    rw [List.foldlM_cons]
    apply outcome_bind
    apply (pop_spec h hon).imp
    rintro c₁ ⟨h₁, hlog₁, hbacklog₁⟩
    apply (ih h₁).imp
    rintro c₂ ⟨h₂, hlog₂, hbacklog₂⟩
    refine ⟨h₂, hlog₁.trans hlog₂, ?_⟩
    rw [List.length_cons]
    omega

theorem Coalescing.drains {multicasts : List Bool} (h : c.Coalescing [])
    (hon : cfg.l2TmaRequestCoalescing = true) (hlength : c.backlog ≤ multicasts.length) :
    ∃ c', multicasts.foldlM (fun c multicast => c.step (.pop multicast)) c = .ok c' ∧
      c.log <+: c'.log ∧ ∀ m, IsMaster c.log m → L2Event.responded m ∈ c.log →
        deliveredOf c'.log m = convoy c'.log m := by
  obtain ⟨c', hok, h', hlog, hbacklog⟩ := (pops_spec h hon).exists_ok
  refine ⟨c', hok, hlog, ?_⟩
  have hempty : c'.l2IcntQueue = [] := by
    cases hqueue : c'.l2IcntQueue with
    | nil => rfl
    | cons x rest =>
      have hpositive : 0 < c'.backlog := by
        unfold backlog
        rw [hqueue, List.map_cons, List.sum_cons]
        omega
      omega
  intro m hm hresponded
  cases h'.masters m ⟨hlog.mem hm.1, hm.2⟩ with
  | gathering _ _ _ _ _ _ hun => exact absurd (hlog.mem hresponded) hun
  | leaving _ x _ _ _ hx =>
    rw [hempty] at hx
    exact absurd hx List.not_mem_nil
  | gone _ hd _ => exact hd

/-- An answer closes the generation of its own master only. -/
theorem respond_closes (hok : c.step (.respond x) = .ok c') {g : CoalescerGroup L2Fetch NewAddrType}
    (hne : m ≠ x) (hg : c.coalescer.groups m = some g) : c'.coalescer.groups m = some g ∧
      ∀ a, c.coalescer.activeMaster a = some m → c'.coalescer.activeMaster a = some m := by
  unfold step enqueueL2Response at hok
  obtain ⟨c₁, hfinal, hok⟩ := bind_eq_ok hok
  obtain ⟨_, -, hok⟩ := bind_eq_ok hok
  cases hok
  unfold finalizeL2TmaCoalescedResponse at hfinal
  dsimp only at hfinal ⊢
  split at hfinal
  · cases hfinal
    exact ⟨hg, fun _ => id⟩
  · cases hgx : c.coalescer.groups x with
    | none =>
      rw [SectorCoalescer.closeMaster_none hgx] at hfinal
      cases hfinal
      exact ⟨hg, fun _ => id⟩
    | some gx =>
      split at hfinal
      · cases hfinal
        exact ⟨hg, fun _ => id⟩
      · rename_i coalescer waiters hclose
        obtain ⟨_, -, hfinal⟩ := bind_eq_ok hfinal
        cases hfinal
        obtain ⟨-, hgroups, -, hkeep, -⟩ := SectorCoalescer.closeMaster_some hgx hclose
        dsimp only
        rw [hgroups, Function.update_of_ne hne]
        exact ⟨hg, fun a ha => hkeep a m hne ha⟩

/-- The guarantees of coalescing. -/
structure Coalesced (c : SubPartition cfg) : Prop where
  once : (deliveries c.log).Nodup ∧ (admitted c.log).Nodup
  order : ∀ m, IsMaster c.log m → deliveredOf c.log m <+: convoy c.log m
  behind : ∀ l₁ l₂ x m, c.log = l₁ ++ .delivered x :: l₂ → IsMaster c.log m →
    x ∈ convoy c.log m → L2Event.responded m ∈ l₁
  lossless : ∀ m, IsMaster c.log m → (m ∈ c.icntL2Queue ∨ m ∈ c.inService) ∨
    (∃ x ∈ c.l2IcntQueue, deliveredOf c.log m ++ [x] <+: convoy c.log m) ∨
    deliveredOf c.log m = convoy c.log m
  drains : ∀ multicasts : List Bool, c.backlog ≤ multicasts.length →
    ∃ c', multicasts.foldlM (fun c multicast => c.step (.pop multicast)) c = .ok c' ∧
      c.log <+: c'.log ∧ ∀ m, IsMaster c.log m → L2Event.responded m ∈ c.log →
        deliveredOf c'.log m = convoy c'.log m
  opened : ∀ a m, c.coalescer.activeMaster a = some m → Current c.log m a
  joins : ∀ l₁ l₂ r m, c.log = l₁ ++ .joined r m :: l₂ → Current l₁ m r.sectorAddr
  closes : ∀ x c', c.step (.respond x) = .ok c' → ∀ m g, m ≠ x →
    c.coalescer.groups m = some g → c'.coalescer.groups m = some g ∧
      ∀ a, c.coalescer.activeMaster a = some m → c'.coalescer.activeMaster a = some m
  silent : ∀ o, c.allowed o → c.Confined o →
    Outcome (c.step o) (fun _ => True) (fun e => e.ofCoalescer = false)

theorem Coalescing.coalesced (h : c.Coalescing []) (hon : cfg.l2TmaRequestCoalescing = true) :
    c.Coalesced where
  once := ⟨(List.nodup_append.mp h.stations).2.1, h.admitted_nodup⟩
  order := fun _ hm => h.order hm
  behind := h.behind
  lossless := fun _ hm => h.lossless hm
  drains := fun _ hlength => h.drains hon hlength
  opened := fun a m ha => (h.active a m ha).2
  joins := h.joins
  closes := fun _ _ hok _ _ hne hg => respond_closes hok hne hg
  silent := fun _ hallowed hconfined =>
    (step_spec h hon hallowed hconfined).imp fun _ _ => trivial

/-- In every run whose writes and atomics stay within a sector, coalesced reads are ordered and
none is lost. -/
theorem reads_coalesced (hon : cfg.l2TmaRequestCoalescing = true)
    (h : Reaches (fun c o => c.step o) (fun c o => c.allowed o ∧ c.Confined o) (init cfg) c) :
    c.Coalesced := by
  have hcoalescing : c.Coalescing [] := by
    refine h.invariant (fun c => c.Coalescing []) coalescing_init ?_
    intro s t o hs hallowed hok
    exact (step_spec hs hon hallowed.1 hallowed.2).of_ok hok
  exact hcoalescing.coalesced hon

/-- An L2 without latencies, that lets one request a cycle out of the delay stage. -/
def oneRequest (cacheType : CacheType) : SubPartitionConfig where
  cacheType := cacheType
  l2TmaRequestCoalescing := true
  ropLatency := 0
  l2PartitionExtraLatency := 0
  l2PartitionCount := 1
  numShader := 1
  nMemSubPartition := 1
  subPartitionId := 0
  ropDelayOutputSectorsPerCycle := 1
  icntL2Length := 8
  l2IcntLength := 8

/-- A TMA read of the second sector of a line. -/
def tmaRead (id : Nat) : L2Fetch where
  id := id
  addr := 0x20
  dataSize := 32
  isWrite := false
  isAtomic := false
  accessType := .tmaAccR
  byteMask := (BitVec.allOnes 32).setWidth 128 <<< 32
  sectorMask := 0b0010
  isTexture := false
  sid := 0
  originalIsAtomic := false

/-- A write of a whole line. -/
def lineWrite (id : Nat) : L2Fetch where
  id := id
  addr := 0
  dataSize := 128
  isWrite := true
  isAtomic := false
  accessType := .globalAccW
  byteMask := BitVec.allOnes 128
  sectorMask := 0b1111
  isTexture := false
  sid := 0
  originalIsAtomic := false

theorem reads_coalesced_witness : ∃ c : SubPartition (oneRequest .sector),
    deliveries c.log = [tmaRead 0, tmaRead 5] ∧ c.Coalesced := by
  have hrun : (runAllowed (fun (c : SubPartition (oneRequest .sector)) o => c.step o)
      (fun c o => c.allowed o ∧ c.Confined o) (init (oneRequest .sector))
      [.push (tmaRead 0) 0, .push (tmaRead 5) 0, .push (lineWrite 10) 0, .enqueueReadyRop 0, .take,
        .respond (tmaRead 0), .pop false, .pop false]).any
      (fun c => decide (deliveries c.log = [tmaRead 0, tmaRead 5])) = true := by
    decide +kernel
  obtain ⟨c, hc, htest⟩ := (Option.any_eq_true _ _).mp hrun
  exact ⟨c, of_decide_eq_true htest, reads_coalesced rfl (Reaches.of_runAllowed .refl hc)⟩

/-- A write of a whole line closes its first sector only, and a read of the second one joins
the master that the write has overtaken. -/
theorem reads_coalesced_counterexample :
    ¬ ∀ (cfg : SubPartitionConfig) (c : SubPartition cfg), cfg.l2TmaRequestCoalescing = true →
      Reaches (fun c o => c.step o) allowed (init cfg) c → c.Coalesced := by
  intro hclaim
  have hrun : (runAllowed (fun (c : SubPartition (oneRequest .normal)) o => c.step o)
      allowed (init (oneRequest .normal))
      [.push (tmaRead 0) 0, .enqueueReadyRop 0, .push (lineWrite 5) 1, .enqueueReadyRop 1,
        .push (tmaRead 10) 2, .enqueueReadyRop 2]).any
      (fun c => decide (c.log = [.entered (tmaRead 0), .entered (lineWrite 5),
        .joined (tmaRead 10) (tmaRead 0)])) = true := by
    decide +kernel
  obtain ⟨c, hc, htest⟩ := (Option.any_eq_true _ _).mp hrun
  have hlog := of_decide_eq_true htest
  have hcoalesced := hclaim _ c rfl (Reaches.of_runAllowed .refl hc)
  obtain ⟨k₁, k₂, hsplit, hsince⟩ :=
    (hcoalesced.joins [.entered (tmaRead 0), .entered (lineWrite 5)] [] _ _ hlog).since
  have hwrite : L2Event.entered (lineWrite 5) ∈ k₂ := by
    cases k₁ with
    | nil =>
      cases hsplit
      exact List.mem_singleton_self _
    | cons e k₁ =>
      exfalso
      obtain ⟨-, hsplit⟩ := List.cons.inj hsplit
      cases k₁ with
      | nil => cases hsplit
      | cons e' k₁ =>
        obtain ⟨-, hsplit⟩ := List.cons.inj hsplit
        cases k₁ <;> cases hsplit
  exact (hsince _ hwrite).1 ⟨.inl rfl, by decide, by decide⟩

end SubPartition

end FlashGpuSim
