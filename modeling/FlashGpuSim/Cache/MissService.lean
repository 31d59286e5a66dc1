import FlashGpuSim.Lib.Service
import FlashGpuSim.Cache.MissTracking

/-!
Every request that enters the miss table is returned once, behind the fill of its block
and in the order of entry, and no assertion of the table or of a fill fires. The policies
do not matter, with two exceptions that the code asserts: an atomic needs an
allocate-on-miss cache, and the table must have room for one request in an entry.
-/

namespace FlashGpuSim

open Lib

namespace MissEvent

/-- What an event is for the block `a`. -/
def forBlock (a : NewAddrType) : MissEvent → Option (ServiceEvent MemFetch)
  | entered b mf => if b = a then some (.entered mf) else none
  | filled b => if b = a then some .answered else none
  | returned b mf => if b = a then some (.returned mf) else none

end MissEvent

namespace MshrTable

variable {cfg : CacheConfig} {m m' : MshrTable} {a b : NewAddrType} {mf : MemFetch}
  {ready atomic : Bool}

/-- The history of one block. -/
def eventsOf (m : MshrTable) (a : NewAddrType) : List (ServiceEvent MemFetch) :=
  m.log.filterMap (MissEvent.forBlock a)

/-- The entry of a block as a service of its requests. -/
def service (m : MshrTable) (a : NewAddrType) : Service MemFetch :=
  match m.data.lookup a.toNat with
  | none => .idle
  | some e => if e.ready then .draining e.list else .waiting e.list

/-- Every block has been served so far. -/
def Served (m : MshrTable) : Prop := ∀ a, Service.Run (m.eventsOf a) (m.service a)

theorem eventsOf_concat {e : MissEvent} (hlog : m'.log = m.log ++ [e]) (b : NewAddrType) :
    m'.eventsOf b = m.eventsOf b ++ (e.forBlock b).toList := by
  unfold eventsOf
  rw [hlog, List.filterMap_append]
  cases h : e.forBlock b with
  | none => simp [h]
  | some x => simp [h]

theorem pending_service (m : MshrTable) (a : NewAddrType) : (m.service a).pending = m.waiting a := by
  unfold service MshrTable.waiting
  cases hlook : m.data.lookup a.toNat with
  | none =>
    unfold entryAt
    rw [hlook]
    rfl
  | some e =>
    rw [entryAt_of_some hlook]
    dsimp only
    split
    · rfl
    · rfl

theorem service_congr (h : m'.data.lookup b.toNat = m.data.lookup b.toNat) :
    m'.service b = m.service b := by
  unfold service
  rw [h]

/-- One block makes a step, and the others stay. -/
theorem Served.step {e : MissEvent} {x : ServiceEvent MemFetch} (h : m.Served)
    (hlog : m'.log = m.log ++ [e]) (hhere : e.forBlock a = some x)
    (hothers : ∀ b, b ≠ a → e.forBlock b = none ∧ m'.service b = m.service b)
    (hstep : Service.Step (m.service a) x (m'.service a)) : m'.Served := by
  intro b
  rw [eventsOf_concat hlog]
  rcases Decidable.eq_or_ne b a with rfl | hb
  · rw [hhere]
    exact .next (h b) hstep
  · obtain ⟨hnone, hsame⟩ := hothers b hb
    rw [hnone, hsame]
    change Service.Run (m.eventsOf b ++ []) _
    rw [List.append_nil]
    exact h b

theorem Entered.served (hentered : m.Entered m' a mf ready atomic)
    (hready : m.probeReady a = ready) (h : m.Served) : m'.Served := by
  refine h.step hentered.log (if_pos rfl) (fun b hb => ⟨if_neg hb.symm, ?_⟩) ?_
  · exact service_congr (hentered.others b hb)
  · have hhere := hentered.here
    unfold service
    rw [hhere]
    cases hlook : m.data.lookup a.toNat with
    | none =>
      rw [probeReady_of_lookup hlook] at hready
      subst hready
      unfold MshrTable.waiting entryAt
      rw [hlook]
      exact .first mf
    | some e =>
      rw [probeReady_of_lookup hlook] at hready
      change e.ready = ready at hready
      unfold MshrTable.waiting
      rw [entryAt_of_some hlook]
      dsimp only
      rw [hready]
      cases ready with
      | false => exact .join e.list mf
      | true => exact .late e.list mf

theorem Filled.served (hfilled : m.Filled m' a) (h : m.Served) : m'.Served := by
  refine h.step hfilled.log (if_pos rfl) (fun b hb => ⟨if_neg hb.symm, ?_⟩) ?_
  · exact service_congr (hfilled.others b hb)
  · obtain ⟨e, hlook, hready, hlook'⟩ := hfilled.before
    unfold service
    rw [hlook, hlook']
    dsimp only
    rw [hready]
    exact .answer e.list

theorem Returned.served (hreturned : m.Returned m' a mf) (hsound : Sound cfg m) (h : m.Served) :
    m'.Served := by
  refine h.step hreturned.log (if_pos rfl) (fun b hb => ⟨if_neg hb.symm, ?_⟩) ?_
  · exact service_congr (hreturned.others b hb)
  · obtain ⟨e, hlook, hready⟩ := probeReady_eq_true.mp (hreturned.ready hsound)
    obtain ⟨list, hwaiting, hlook'⟩ := hreturned.head
    unfold waiting at hwaiting
    rw [entryAt_of_some hlook] at hwaiting hlook'
    unfold service
    rw [hlook, hlook']
    dsimp only
    rw [hready, hwaiting]
    cases list with
    | nil => exact .last mf
    | cons y list =>
      rw [if_neg (by simp : ¬ (y :: list).isEmpty = true)]
      exact .leave mf y list

/-- No request that waits is an atomic. -/
def NoAtomics (m : MshrTable) : Prop :=
  ∀ (a : NewAddrType) e, m.data.lookup a.toNat = some e → e.hasAtomic = false

theorem NoAtomics.entryAt (h : m.NoAtomics) (a : NewAddrType) :
    (m.entryAt a).hasAtomic = false := by
  cases hlook : m.data.lookup a.toNat with
  | none =>
    unfold MshrTable.entryAt
    rw [hlook]
    rfl
  | some e =>
    rw [entryAt_of_some hlook]
    exact h a e hlook

theorem Entered.noAtomics (hentered : m.Entered m' a mf ready false) (h : m.NoAtomics) :
    m'.NoAtomics := by
  intro b e he
  rcases Decidable.eq_or_ne b a with rfl | hb
  · rw [hentered.here] at he
    cases he
    exact h.entryAt b
  · rw [hentered.others b hb] at he
    exact h b e he

theorem Filled.noAtomics (hfilled : m.Filled m' a) (h : m.NoAtomics) : m'.NoAtomics := by
  intro b e he
  rcases Decidable.eq_or_ne b a with rfl | hb
  · obtain ⟨e', hlook, -, hlook'⟩ := hfilled.before
    rw [hlook'] at he
    cases he
    exact h b e' hlook
  · rw [hfilled.others b hb] at he
    exact h b e he

theorem Returned.noAtomics (hreturned : m.Returned m' a mf) (h : m.NoAtomics) :
    m'.NoAtomics := by
  intro b e he
  rcases Decidable.eq_or_ne b a with rfl | hb
  · obtain ⟨list, -, hlook'⟩ := hreturned.head
    rw [hlook'] at he
    split at he
    · cases he
    · cases he
      exact h.entryAt b
  · rw [hreturned.others b hb] at he
    exact h b e he

/-! ### No assertion of the table fires -/

/-- The assertions of `mshr_table` and of `fill_cache_state`. -/
def assertions : List CacheFailure :=
  [.mshrReady, .mshrEntries, .mshrMaxMerged, .mshrNotForwardable, .mshrMissing, .mshrEmpty,
    .noAccessReady, .unknownFill, .atomicOnFill]

theorem add_room (mf : MemFetch) (atomic : Bool) (hnot : m.probeReady a = false)
    (hsize : ∀ e, Table.size (m.data.insert a.toNat e) ≤ cfg.mshrEntries)
    (hlen : (m.entryAt a).list.length < cfg.mshrMaxMerge) :
    ∃ m', m.add cfg a mf atomic = .ok m' := by
  have hone : ((m.entryAt a).list ++ [mf]).length ≤ cfg.mshrMaxMerge := by
    rw [List.length_append]
    exact hlen
  unfold add require
  dsimp only
  rw [hnot, decide_eq_true (hsize _), decide_eq_true hone]
  exact ⟨_, rfl⟩

/-- A request joins a read that is out, where the table is not full for its block. -/
theorem add_merge (mf : MemFetch) (atomic : Bool) (hsound : Sound cfg m) (hhit : m.probe a = true)
    (havail : m.full cfg a = false) : ∃ m', m.add cfg a mf atomic = .ok m' := by
  obtain ⟨e, hlook, hready⟩ := probe_eq_true.mp hhit
  have hnot : m.probeReady a = false := by
    rw [probeReady_of_lookup hlook]
    exact hready
  have hroom : e.list.length < cfg.mshrMaxMerge := by
    unfold full at havail
    rw [hlook] at havail
    dsimp only at havail
    rw [hready] at havail
    exact Nat.lt_of_not_le (of_decide_eq_false havail)
  refine add_room mf atomic hnot ?_ ?_
  · intro e'
    rw [Table.size_insert_present hlook]
    exact hsound.size
  · rw [entryAt_of_some hlook]
    exact hroom

/-- A read goes out where the table has an entry left. -/
theorem add_first (mf : MemFetch) (atomic : Bool) (hmerge : 0 < cfg.mshrMaxMerge)
    (hhit : m.probe a = false) (havail : m.full cfg a = false) : ∃ m', m.add cfg a mf atomic = .ok m' := by
  have hlook : m.data.lookup a.toNat = none := by
    cases hlook : m.data.lookup a.toNat with
    | none => rfl
    | some e =>
      exfalso
      unfold full at havail
      rw [hlook] at havail
      dsimp only at havail
      rw [probe_of_lookup hlook] at hhit
      change (!e.ready) = false at hhit
      rw [Bool.not_eq_false'] at hhit
      rw [hhit] at havail
      cases havail
  have hroom : Table.size m.data < cfg.mshrEntries := by
    unfold full at havail
    rw [hlook] at havail
    exact Nat.lt_of_not_le (of_decide_eq_false havail)
  have hnot : m.probeReady a = false := by
    rw [probeReady_of_lookup hlook]
    rfl
  have hentry : m.entryAt a = ⟨[], false, false⟩ := by
    unfold entryAt
    rw [hlook]
    rfl
  refine add_room mf atomic hnot ?_ ?_
  · intro e'
    rw [Table.size_insert_new hlook]
    exact hroom
  · rw [hentry]
    exact hmerge

theorem addReady_forward (mf : MemFetch) (hforward : m.readyForForward cfg a = true) :
    ∃ m', m.addReady cfg a mf = .ok m' := by
  unfold addReady require
  rw [if_pos hforward]
  exact ⟨_, rfl⟩

theorem markReady_pending (hhit : m.probe a = true) : ∃ r, m.markReady a = .ok r := by
  obtain ⟨e, hlook, hready⟩ := probe_eq_true.mp hhit
  unfold markReady require
  rw [hlook]
  dsimp only
  rw [hready]
  exact ⟨_, rfl⟩

theorem nextAccess_ready (hsound : Sound cfg m) (hresponse : m.currentResponse ≠ []) :
    ∃ r, m.nextAccess = .ok r := by
  unfold nextAccess
  cases hlist : m.currentResponse with
  | nil => exact absurd hlist hresponse
  | cons a rest =>
    have hmem : a ∈ m.currentResponse := by
      rw [hlist]
      exact List.mem_cons_self
    obtain ⟨e, hlook, -⟩ := probeReady_eq_true.mp ((hsound.ready a).mp hmem)
    dsimp only
    rw [entryAt_of_some hlook]
    cases hwait : e.list with
    | nil => exact absurd hwait (hsound.nonempty a e hlook)
    | cons x list => exact ⟨_, rfl⟩

end MshrTable

/-- A failure that is not one of the table or of a fill. -/
def Elsewhere (e : CacheFailure) : Prop := e ∉ MshrTable.assertions

instance (e : CacheFailure) : Decidable (Elsewhere e) := by
  unfold Elsewhere
  infer_instance

theorem getSectorIndex_elsewhere (k : CacheType) (mask : MemAccessSectorMask) :
    Outcome (k.getSectorIndex mask) (fun _ => True) Elsewhere := by
  cases k with
  | normal => trivial
  | sector =>
    unfold CacheType.getSectorIndex
    dsimp only
    split
    · trivial
    · exact (by decide : Elsewhere .sectorMaskCount)

namespace TagArray

variable {cfg : CacheConfig} {t : TagArray cfg.cacheType} {mask : MemAccessSectorMask}
  {w : Bool} {time : BitVec 32} {mf : MemFetch} {addr : NewAddrType}

theorem probeWays_elsewhere (tag : NewAddrType) (ways : List Nat) (r : Replacement) :
    Outcome (t.probeWays tag mask w ways r) (fun _ => True) Elsewhere := by
  induction ways generalizing r with
  | nil =>
    unfold probeWays
    split
    · split
      · trivial
      · exact (by decide : Elsewhere .allocPolicy)
    · split
      · trivial
      · trivial
      · exact (by decide : Elsewhere .noReplacement)
  | cons index rest ih =>
    unfold probeWays
    apply outcome_bind
    have hverdict : Outcome (t.verdict tag mask w index) (fun _ => True) Elsewhere := by
      unfold verdict
      split
      · apply outcome_bind
        exact (getSectorIndex_elsewhere _ _).imp (fun _ _ => trivial)
      · trivial
    refine hverdict.imp (fun v _ => ?_)
    cases v with
    | some status => trivial
    | none => exact ih _

theorem access_elsewhere : Outcome (t.access addr time mf) (fun _ => True) Elsewhere := by
  unfold access
  apply outcome_bind
  refine (probeWays_elsewhere _ _ _).imp (fun ⟨status, idx⟩ _ => ?_)
  cases status with
  | hit =>
    apply outcome_bind
    exact (getSectorIndex_elsewhere _ _).imp (fun _ _ => trivial)
  | hitReserved =>
    apply outcome_bind
    exact (getSectorIndex_elsewhere _ _).imp (fun _ _ => trivial)
  | miss =>
    dsimp only
    split
    · apply outcome_bind
      exact (getSectorIndex_elsewhere _ _).imp (fun _ _ => trivial)
    · trivial
  | sectorMiss =>
    apply outcome_bind
    refine outcome_require (fun _ => ?_) (fun _ => by decide)
    split
    · apply outcome_bind
      refine outcome_require (fun _ => ?_) (fun _ => by decide)
      apply outcome_bind
      exact (getSectorIndex_elsewhere _ _).imp (fun _ _ => trivial)
    · trivial
  | reservationFail => trivial

theorem accessNoWb_elsewhere : Outcome (t.accessNoWb addr time mf) (fun _ => True) Elsewhere := by
  unfold accessNoWb
  apply outcome_bind
  refine access_elsewhere.imp (fun a _ => ?_)
  apply outcome_bind
  exact outcome_require (fun _ => trivial) (fun _ => by decide)

theorem fillAt_elsewhere (index : Nat) :
    Outcome (t.fillAt index mf) (fun _ => True) Elsewhere := by
  unfold fillAt
  apply outcome_bind
  exact (getSectorIndex_elsewhere _ _).imp (fun _ _ => trivial)

theorem fill_elsewhere : Outcome (t.fill addr time mf) (fun _ => True) Elsewhere := by
  unfold fill
  apply outcome_bind
  refine (probeWays_elsewhere _ _ _).imp (fun ⟨status, idx⟩ _ => ?_)
  dsimp only
  split
  · trivial
  · apply outcome_bind
    refine (getSectorIndex_elsewhere _ _).imp (fun s _ => ?_)
    apply outcome_bind
    have hplace : Outcome (t.placeFor addr time status (idx.getD 0) s) (fun _ => True)
        Elsewhere := by
      unfold placeFor
      dsimp only
      split
      · trivial
      · apply outcome_bind
        refine outcome_require (fun _ => ?_) (fun _ => by decide)
        apply outcome_bind
        exact outcome_require (fun _ => trivial) (fun _ => by decide)
      · trivial
      · trivial
      · trivial
    exact hplace.imp (fun _ _ => fillAt_elsewhere _)

end TagArray

namespace BaselineCache

variable {cfg : CacheConfig} {c c' : BaselineCache cfg} {mf : MemFetch} {time : BitVec 32}
  {index nMf wb : Nat} {status : CacheRequestStatus}

/-- The misses of a cache are under control: paired, served in order, and free of atomics
where the cache allocates on a fill. -/
structure Good (c : BaselineCache cfg) : Prop where
  tracked : c.Tracked
  served : c.mshrs.Served
  noAtomics : cfg.allocPolicy = .onFill → c.mshrs.NoAtomics

/-- An operation keeps the misses under control, and fails at another place only. -/
abbrev Keeps {α : Type} (r : Except CacheFailure α) (cache : α → BaselineCache cfg) : Prop :=
  Outcome r (fun x => (cache x).Good) Elsewhere

theorem Good.same (h : c.Good) (hsame : c.SameMisses c') : c'.Good where
  tracked := h.tracked.same hsame
  served := by
    rw [hsame.mshrs]
    exact h.served
  noAtomics := by
    rw [hsame.mshrs]
    exact h.noAtomics

theorem Good.withTags (h : c.Good) (tags : TagArray cfg.cacheType) :
    Good { c with tags := tags } := h.same ⟨rfl, rfl⟩

theorem markModified_elsewhere :
    Outcome (c.markModified index mf) (fun c' => c.SameMisses c') Elsewhere := by
  unfold markModified
  apply outcome_bind
  exact (getSectorIndex_elsewhere _ _).imp (fun _ _ => ⟨rfl, rfl⟩)

theorem updateMReadable_elsewhere :
    Outcome (c.updateMReadable mf index) (fun c' => c.SameMisses c') Elsewhere := by
  unfold updateMReadable
  apply outcome_bind
  refine (getSectorIndex_elsewhere _ _).imp (fun s _ => ?_)
  split
  · exact ⟨rfl, rfl⟩
  · exact ⟨rfl, rfl⟩

theorem accessTags_elsewhere {readOnly : Bool} :
    Outcome (c.accessTags mf time readOnly) (fun _ => True) Elsewhere := by
  unfold accessTags
  split
  · exact TagArray.accessNoWb_elsewhere
  · exact TagArray.access_elsewhere

theorem sendReadRequest_good (mf : MemFetch) (time : BitVec 32) (readOnly wa : Bool) (h : c.Good)
    (hmerge : 0 < cfg.mshrMaxMerge) (hid : c.waitingForFill mf.id = false)
    (hatomic : cfg.allocPolicy = .onFill → mf.isAtomic = false) :
    Keeps (c.sendReadRequest mf time readOnly wa) (fun r => r.cache) := by
  unfold sendReadRequest
  dsimp only
  split
  · rename_i hforward
    unfold readyForwardEligible at hforward
    rw [Bool.and_eq_true, Bool.and_eq_true] at hforward
    obtain ⟨m, hadd⟩ := MshrTable.addReady_forward mf hforward.1.1
    rw [hadd]
    obtain ⟨hready, hentered, -⟩ := MshrTable.addReady_spec hadd
    exact ⟨MissesTracked.forward h.tracked hadd, hentered.served hready h.served,
      fun hfill => hentered.noAtomics (h.noAtomics hfill)⟩
  · split
    · rename_i hhit
      rw [Bool.and_eq_true, Bool.not_eq_true'] at hhit
      apply outcome_bind
      refine accessTags_elsewhere.imp (fun a _ => ?_)
      obtain ⟨m, hadd⟩ := MshrTable.add_merge mf mf.isAtomic
        h.tracked.sound hhit.1 hhit.2
      rw [hadd]
      obtain ⟨hready, hentered, -⟩ := MshrTable.add_spec hadd
      refine ⟨MissesTracked.merge h.tracked hhit.1 hadd, hentered.served hready h.served,
        fun hfill => ?_⟩
      rw [hatomic hfill] at hentered
      exact hentered.noAtomics (h.noAtomics hfill)
    · split
      · rename_i hfirst
        rw [Bool.and_eq_true, Bool.and_eq_true, Bool.not_eq_true', Bool.not_eq_true'] at hfirst
        apply outcome_bind
        refine accessTags_elsewhere.imp (fun a _ => ?_)
        obtain ⟨m, hadd⟩ := MshrTable.add_first mf mf.isAtomic
          hmerge hfirst.1.1 hfirst.1.2
        rw [hadd]
        obtain ⟨hready, hentered, -⟩ := MshrTable.add_spec hadd
        refine ⟨MissesTracked.send h.tracked hfirst.1.1 hadd (waitingForFill_eq_false.mp hid) rfl,
          hentered.served hready h.served, fun hfill => ?_⟩
        rw [hatomic hfill] at hentered
        exact hentered.noAtomics (h.noAtomics hfill)
      · split
        · exact h
        · split
          · exact h
          · exact (by decide : Elsewhere .unreachable)

/-! ### The accesses -/

theorem wrHitWb_good (h : c.Good) : Keeps (c.wrHitWb mf time index) Prod.fst := by
  unfold wrHitWb
  apply outcome_bind
  refine TagArray.accessNoWb_elsewhere.imp (fun a _ => ?_)
  apply outcome_bind
  refine markModified_elsewhere.imp (fun c₁ hmark => ?_)
  apply outcome_bind
  refine updateMReadable_elsewhere.imp (fun c₂ hread => ?_)
  exact (h.withTags a.tags).same (hmark.trans hread)

theorem wrHitWt_good (h : c.Good) : Keeps (c.wrHitWt mf time index) Prod.fst := by
  unfold wrHitWt
  split
  · exact h
  · apply outcome_bind
    refine TagArray.accessNoWb_elsewhere.imp (fun a _ => ?_)
    apply outcome_bind
    refine markModified_elsewhere.imp (fun c₁ hmark => ?_)
    apply outcome_bind
    refine updateMReadable_elsewhere.imp (fun c₂ hread => ?_)
    have hgood := (h.withTags a.tags).same (hmark.trans hread)
    exact hgood.same (sendWriteRequest_same c₂ mf).misses

theorem wrHitWe_good (h : c.Good) : Keeps (c.wrHitWe mf index) Prod.fst := by
  unfold wrHitWe
  split
  · exact h
  · apply outcome_bind
    exact (getSectorIndex_elsewhere _ _).imp (fun s _ => h.same ⟨rfl, rfl⟩)

theorem wrHit_good (h : c.Good) : Keeps (c.wrHit mf time index) Prod.fst := by
  unfold wrHit
  split
  · exact (by decide : Elsewhere .writeToReadOnly)
  · exact wrHitWb_good h
  · exact wrHitWt_good h
  · exact wrHitWe_good h
  · unfold wrHitGlobalWeLocalWb
    split
    · exact wrHitWe_good h
    · exact wrHitWb_good h

theorem rdHitBase_good (h : c.Good) : Keeps (c.rdHitBase mf time index) Prod.fst := by
  unfold rdHitBase
  apply outcome_bind
  refine TagArray.accessNoWb_elsewhere.imp (fun a _ => ?_)
  dsimp only
  split
  · apply outcome_bind
    refine outcome_require (fun _ => ?_) (fun _ => by decide)
    apply outcome_bind
    exact markModified_elsewhere.imp (fun c₁ hmark => (h.withTags a.tags).same hmark)
  · exact h.withTags a.tags

theorem wrMissWaNaive_good (h : c.Good) (hmerge : 0 < cfg.mshrMaxMerge)
    (hid : c.waitingForFill nMf = false) :
    Keeps (c.wrMissWaNaive mf time nMf wb status) Prod.fst := by
  unfold wrMissWaNaive
  split
  · exact h
  · apply outcome_bind
    have hsent : (c.sendWriteRequest mf).Good := h.same ⟨rfl, rfl⟩
    have hread := sendReadRequest_good (writeAllocateRead cfg mf nMf) time false true hsent hmerge hid (fun _ => rfl)
    refine hread.imp (fun r hgood => ?_)
    have hback := hgood.same (sendWriteBack_same r.cache wb r.evicted).misses
    split
    · dsimp only
      split
      · apply outcome_bind
        exact outcome_require (fun _ => hback) (fun _ => by decide)
      · exact hback
    · exact hgood

theorem wrMissWaFetchOnWriteFull_good (h : c.Good) :
    Keeps (c.wrMissWaFetchOnWriteFull mf time wb index) Prod.fst := by
  unfold wrMissWaFetchOnWriteFull
  split
  · exact h
  · apply outcome_bind
    refine TagArray.access_elsewhere.imp (fun a _ => ?_)
    apply outcome_bind
    refine outcome_require (fun _ => ?_) (fun _ => by decide)
    apply outcome_bind
    refine (getSectorIndex_elsewhere _ _).imp (fun s _ => ?_)
    apply outcome_bind
    refine markModified_elsewhere.imp (fun c₁ hmark => ?_)
    have hgood := (h.withTags a.tags).same hmark
    split
    · have hflags := hgood.same (modifyLine_same c₁ (a.idx.getD index)
        (fun line => line.setIgnoreOnFill true s))
      split
      · exact hflags.same (sendWriteBack_same _ wb a.evicted).misses
      · exact hflags
    · split
      · exact hgood.same (sendWriteBack_same _ wb a.evicted).misses
      · exact hgood

theorem wrMissWaFetchOnWritePartial_good (h : c.Good) (hmerge : 0 < cfg.mshrMaxMerge)
    (hid : c.waitingForFill nMf = false) :
    Keeps (c.wrMissWaFetchOnWritePartial mf time nMf wb index) Prod.fst := by
  unfold wrMissWaFetchOnWritePartial
  dsimp only
  split
  · exact h
  · split
    · exact h
    · apply outcome_bind
      have hread := sendReadRequest_good (writeAllocateRead cfg mf nMf) time false true h hmerge hid (fun _ => rfl)
      refine hread.imp (fun r hgood => ?_)
      apply outcome_bind
      refine (getSectorIndex_elsewhere _ _).imp (fun s _ => ?_)
      have hflags := hgood.same (modifyLine_same r.cache index
        (fun line => (line.setModifiedOnFill true s).setByteMaskOnFill true))
      split
      · exact hflags.same (sendWriteBack_same _ wb r.evicted).misses
      · exact hflags

theorem wrMissWaLazyFetchOnRead_good (h : c.Good) :
    Keeps (c.wrMissWaLazyFetchOnRead mf time wb index) Prod.fst := by
  unfold wrMissWaLazyFetchOnRead
  split
  · exact h
  · dsimp only
    generalize hc₀ : (if cfg.writePolicy = .writeThrough then c.sendWriteRequest mf else c) = c₀
    have h₀ : c₀.Good := by
      rw [← hc₀]
      split
      · exact h.same ⟨rfl, rfl⟩
      · exact h
    apply outcome_bind
    refine TagArray.access_elsewhere.imp (fun a _ => ?_)
    apply outcome_bind
    refine outcome_require (fun _ => ?_) (fun _ => by decide)
    apply outcome_bind
    refine (getSectorIndex_elsewhere _ _).imp (fun s _ => ?_)
    apply outcome_bind
    refine markModified_elsewhere.imp (fun c₁ hmark => ?_)
    apply outcome_bind
    refine updateMReadable_elsewhere.imp (fun c₂ hread => ?_)
    have hflags : c₁.SameMisses c₂ := by
      refine SameMisses.trans ?_ hread
      split
      · exact ⟨rfl, rfl⟩
      · exact ⟨rfl, rfl⟩
    have hgood := ((h₀.withTags a.tags).same hmark).same hflags
    split
    · exact hgood.same (sendWriteBack_same _ wb a.evicted).misses
    · exact hgood

theorem wrMiss_good (h : c.Good) (hmerge : 0 < cfg.mshrMaxMerge)
    (hid : c.waitingForFill nMf = false) :
    Keeps (c.wrMiss mf time nMf wb status index) Prod.fst := by
  unfold wrMiss
  split
  · unfold wrMissNoWa
    split
    · exact h
    · exact h.same ⟨rfl, rfl⟩
  · exact wrMissWaNaive_good h hmerge hid
  · unfold wrMissWaFetchOnWrite
    split
    · exact wrMissWaFetchOnWriteFull_good h
    · exact wrMissWaFetchOnWritePartial_good h hmerge hid
  · exact wrMissWaLazyFetchOnRead_good h

theorem rdMissBase_good (h : c.Good) (hmerge : 0 < cfg.mshrMaxMerge)
    (hid : c.waitingForFill mf.id = false)
    (hatomic : cfg.allocPolicy = .onFill → mf.isAtomic = false) :
    Keeps (c.rdMissBase mf time wb) Prod.fst := by
  unfold rdMissBase
  split
  · exact h
  · apply outcome_bind
    refine (sendReadRequest_good mf time _ _ h hmerge hid hatomic).imp (fun r hgood => ?_)
    split
    · exact hgood.same (sendWriteBack_same _ wb r.evicted).misses
    · exact hgood

theorem dataAccess_good (h : c.Good) (hmerge : 0 < cfg.mshrMaxMerge)
    (hid : c.waitingForFill mf.id = false) (hn : c.waitingForFill nMf = false)
    (hatomic : cfg.allocPolicy = .onFill → mf.isAtomic = false) :
    Keeps (c.dataAccess mf time nMf wb) Prod.fst := by
  unfold dataAccess
  apply outcome_bind
  refine outcome_require (fun _ => ?_) (fun _ => by decide)
  apply outcome_bind
  refine (TagArray.probeWays_elsewhere _ _ _).imp (fun ⟨status, idx⟩ _ => ?_)
  dsimp only
  unfold processTagProbe
  split
  · split
    · exact wrHit_good h
    · split
      · exact wrMiss_good h hmerge hn
      · exact h
  · split
    · exact rdHitBase_good h
    · split
      · exact rdMissBase_good h hmerge hid hatomic
      · exact h

theorem readOnlyAccess_good (h : c.Good) (hmerge : 0 < cfg.mshrMaxMerge)
    (hid : c.waitingForFill mf.id = false)
    (hatomic : cfg.allocPolicy = .onFill → mf.isAtomic = false) :
    Keeps (c.readOnlyAccess mf time) Prod.fst := by
  unfold readOnlyAccess
  apply outcome_bind
  refine outcome_require (fun _ => ?_) (fun _ => by decide)
  apply outcome_bind
  refine outcome_require (fun _ => ?_) (fun _ => by decide)
  apply outcome_bind
  refine (TagArray.probeWays_elsewhere _ _ _).imp (fun ⟨status, idx⟩ _ => ?_)
  dsimp only
  split
  · apply outcome_bind
    exact TagArray.accessNoWb_elsewhere.imp (fun a _ => h.withTags a.tags)
  · split
    · split
      · exact h
      · apply outcome_bind
        exact (sendReadRequest_good mf time _ _ h hmerge hid hatomic).imp (fun r hgood => hgood)
    · exact h

/-! ### Fills and drains -/

theorem fillLine_good {id : Nat} {e e' : ExtraMfFields} (h : c.Good)
    (he : c.extraMfFields.lookup id = some e) (hblock : e'.blockAddr = e.blockAddr) :
    Keeps (c.fillLine id e' time) (fun c' => c') := by
  unfold fillLine
  dsimp only
  apply outcome_bind
  have htags : ∀ mf : MemFetch,
      Outcome (c.fillTags e' mf time) (fun _ => True) Elsewhere := by
    intro mf
    unfold fillTags
    split
    · exact TagArray.fillAt_elsewhere _
    · exact TagArray.fill_elsewhere
  refine (htags _).imp (fun tags _ => ?_)
  rw [hblock]
  obtain ⟨⟨m, atomic⟩, hmark⟩ := MshrTable.markReady_pending (h.tracked.pending id e he)
  rw [hmark]
  obtain ⟨hfilled, hatomic⟩ := MshrTable.markReady_spec hmark
  have hgood : Good { c with tags := tags, mshrs := m, extraMfFields := c.extraMfFields.erase id } :=
    ⟨MissesTracked.fill h.tracked he hmark, hfilled.served h.served,
      fun hfill => hfilled.noAtomics (h.noAtomics hfill)⟩
  change Outcome (if atomic = true then _ else _) _ _
  split
  · rename_i hset
    apply outcome_bind
    refine outcome_require (fun _ => ?_) (fun hpolicy => ?_)
    · apply outcome_bind
      refine markModified_elsewhere.imp (fun c₁ hmark => ?_)
      exact hgood.same ⟨hmark.mshrs, congrArg (fun t => t.erase id) hmark.extra⟩
    · -- an atomic waits for no fill in a cache that allocates on fills
      exfalso
      have hfill : cfg.allocPolicy = .onFill := by
        cases hp : cfg.allocPolicy with
        | onFill => rfl
        | onMiss => exact absurd hp (of_decide_eq_false hpolicy)
      rw [(h.noAtomics hfill).entryAt] at hatomic
      rw [← hatomic] at hset
      cases hset
  · exact hgood

theorem fill_good {id : Nat} (h : c.Good) (hid : c.waitingForFill id = true) :
    Keeps (c.fill id time) (fun c' => c') := by
  unfold fill
  cases he : c.extraMfFields.lookup id with
  | none =>
    unfold waitingForFill at hid
    rw [he] at hid
    cases hid
  | some e =>
    dsimp only
    split
    · exact fillLine_good h he rfl
    · split
      · exact ⟨MissesTracked.count h.tracked he rfl, h.served, h.noAtomics⟩
      · exact fillLine_good h he rfl

theorem nextAccess_good (h : c.Good) (hresponse : c.mshrs.currentResponse ≠ []) :
    Keeps c.nextAccess Prod.fst := by
  unfold nextAccess
  obtain ⟨⟨m, mf⟩, hnext⟩ := MshrTable.nextAccess_ready h.tracked.sound hresponse
  rw [hnext]
  obtain ⟨a, hreturned, -⟩ := MshrTable.nextAccess_spec hnext h.tracked.sound
  exact ⟨MissesTracked.drain h.tracked hnext, hreturned.served h.tracked.sound h.served,
    fun hfill => hreturned.noAtomics (h.noAtomics hfill)⟩

/-- Atomics are for caches that allocate on a miss. -/
def AtomicsFit (cfg : CacheConfig) : CacheOp → Prop
  | .access mf _ _ _ => cfg.allocPolicy = .onFill → mf.isAtomic = false
  | .cycle _ | .fill _ _ | .nextAccess => True

instance (cfg : CacheConfig) : (o : CacheOp) → Decidable (AtomicsFit cfg o)
  | .access mf _ _ _ =>
    inferInstanceAs (Decidable (cfg.allocPolicy = .onFill → mf.isAtomic = false))
  | .cycle _ | .fill _ _ | .nextAccess => .isTrue trivial

theorem step_good {o : CacheOp} (h : c.Good) (hmerge : 0 < cfg.mshrMaxMerge)
    (hallowed : c.allowed o) (hfits : AtomicsFit cfg o) : Keeps (c.step o) (fun c' => c') := by
  cases o with
  | access mf time nMf wb =>
    apply outcome_bind
    have haccess : Keeps (c.access mf time nMf wb) Prod.fst := by
      unfold access
      split
      · exact readOnlyAccess_good h hmerge hallowed.1 hfits
      · exact dataAccess_good h hmerge hallowed.1 hallowed.2 hfits
    exact haccess.imp (fun p hp => hp)
  | cycle portFull =>
    change Good _
    unfold cycle
    split
    · exact h
    · exact h.same ⟨rfl, rfl⟩
  | fill id time => exact fill_good h hallowed
  | nextAccess =>
    apply outcome_bind
    exact (nextAccess_good h hallowed).imp (fun p hp => hp)

/-! ### Every miss is served -/

/-- The misses of a cache are served. The environment calls operations that are
`permitted`. -/
structure MissesServed (permitted : CacheOp → Prop) (c : BaselineCache cfg) : Prop where
  out : ∀ id e, c.extraMfFields.lookup id = some e → c.mshrs.probe e.blockAddr = true
  one : ∀ a, c.mshrs.probe a = true →
    ∃! id, ∃ e, c.extraMfFields.lookup id = some e ∧ e.blockAddr = a
  responses : ∀ a, a ∈ c.mshrs.currentResponse ↔ c.mshrs.probeReady a = true
  responsesOnce : c.mshrs.currentResponse.Nodup
  size : Table.size c.mshrs.data ≤ cfg.mshrEntries
  lists : ∀ (a : NewAddrType) e, c.mshrs.data.lookup a.toNat = some e →
    e.list ≠ [] ∧ e.list.length ≤ cfg.mshrMaxMerge
  silent : ∀ o e, c.allowed o → permitted o → c.step o = .error e → Elsewhere e
  drains : c.mshrs.currentResponse ≠ [] → ∃ r, c.nextAccess = .ok r
  fifo : ∀ a, entries (c.mshrs.eventsOf a) = returns (c.mshrs.eventsOf a) ++ c.mshrs.waiting a
  behind : ∀ a log mf rest, c.mshrs.eventsOf a = log ++ .returned mf :: rest →
    Service.Answered log
  settled : c.extraMfFields = ∅ → c.mshrs.currentResponse = [] →
    ∀ a, entries (c.mshrs.eventsOf a) = returns (c.mshrs.eventsOf a)

theorem good_init : (init cfg).Good where
  tracked := MissesTracked.init
  served := fun _ => .nil
  noAtomics := fun _ _ _ h => by cases h

/-- A request waits for a read that is out or for a response that is being drained. -/
theorem Good.waiting_nil (h : c.Good) (hextra : c.extraMfFields = ∅)
    (hresponse : c.mshrs.currentResponse = []) (a : NewAddrType) : c.mshrs.waiting a = [] := by
  unfold MshrTable.waiting
  cases hlook : c.mshrs.data.lookup a.toNat with
  | none =>
    unfold MshrTable.entryAt
    rw [hlook]
    rfl
  | some e =>
    exfalso
    cases hready : e.ready with
    | false =>
      obtain ⟨id, x, hx, -⟩ :=
        h.tracked.owned a (MshrTable.probe_eq_true.mpr ⟨e, hlook, hready⟩)
      rw [hextra] at hx
      cases hx
    | true =>
      have hmem := (h.tracked.sound.ready a).mpr
        (MshrTable.probeReady_eq_true.mpr ⟨e, hlook, hready⟩)
      rw [hresponse] at hmem
      cases hmem

theorem Good.missesServed (h : c.Good) (hmerge : 0 < cfg.mshrMaxMerge) :
    c.MissesServed (AtomicsFit cfg) where
  out := h.tracked.pending
  one := fun a ha => by
    obtain ⟨id, e, he, hblock⟩ := h.tracked.owned a ha
    refine ⟨id, ⟨e, he, hblock⟩, ?_⟩
    rintro id' ⟨e', he', hblock'⟩
    exact h.tracked.distinct id' id e' e he' he (hblock'.trans hblock.symm)
  responses := h.tracked.sound.ready
  responsesOnce := h.tracked.sound.nodup
  size := h.tracked.sound.size
  lists := fun a e he => ⟨h.tracked.sound.nonempty a e he, h.tracked.sound.merged a e he⟩
  silent := fun o e hallowed hfits herror => by
    have hstep := step_good h hmerge hallowed hfits
    unfold Keeps at hstep
    rw [herror] at hstep
    exact hstep
  drains := fun hresponse => by
    obtain ⟨⟨m, mf⟩, hnext⟩ := MshrTable.nextAccess_ready h.tracked.sound hresponse
    unfold nextAccess
    rw [hnext]
    exact ⟨_, rfl⟩
  fifo := fun a => by
    rw [← MshrTable.pending_service]
    exact (h.served a).fifo
  behind := fun a log mf rest hlog => by
    have hrun := h.served a
    rw [hlog] at hrun
    exact hrun.answered
  settled := fun hextra hresponse a => by
    have hfifo := (h.served a).fifo
    rwa [MshrTable.pending_service, h.waiting_nil hextra hresponse a, List.append_nil] at hfifo

/-- An L1 configuration: whole lines, write-through, no allocation by writes. -/
def throughLines (allocPolicy : AllocationPolicy) (mshrMaxMerge : Nat) : CacheConfig where
  cacheType := .normal
  nset := 1
  lineSz := 128
  lineSz_sector := nofun
  assoc := 2
  replacementPolicy := .lru
  writePolicy := .writeThrough
  allocPolicy := allocPolicy
  writeAllocPolicy := .noWriteAllocate
  writePolicy_onFill := fun _ => nofun
  writeAllocPolicy_onFill := fun _ => ⟨nofun, nofun⟩
  mshrType := .assoc
  mshrEntries := 4
  mshrMaxMerge := mshrMaxMerge
  missQueueSize := 8
  setIndex := fun _ => 0
  setIndex_lt := fun _ => Nat.one_pos
  dirtyAtLimit := fun _ => true
  wrAllocType := .l1WrAllocR
  wrbkType := .l1WrbkAcc

/-- A read of a whole line. -/
def lineRead (id : Nat) (isAtomic : Bool) : MemFetch where
  id := id
  addr := 0
  dataSize := 128
  isWrite := false
  isAtomic := isAtomic
  accessType := .globalAccR
  byteMask := 0
  sectorMask := 0xf

end BaselineCache

end FlashGpuSim
