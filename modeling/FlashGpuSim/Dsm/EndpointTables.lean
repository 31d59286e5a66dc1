import FlashGpuSim.Lib.AckLedger
import FlashGpuSim.Dsm.EndpointTraffic

/-!
The tables of transactions against the history: what was accepted is done or still in
its table, never both, and a store is done only after it was applied.
-/

namespace FlashGpuSim

open Lib Relation

/-- The transactions for which `m_on_tx_done` was called, in order. -/
def doneIds (history : List DsmEvent) : List Nat :=
  history.filterMap fun
    | .txDone id => some id
    | _ => none

@[simp] theorem doneIds_append (h h' : List DsmEvent) :
    doneIds (h ++ h') = doneIds h ++ doneIds h' := List.filterMap_append

theorem mem_doneIds {id : Nat} {history : List DsmEvent} :
    id ∈ doneIds history ↔ .txDone id ∈ history := by
  unfold doneIds
  rw [List.mem_filterMap]
  constructor
  · rintro ⟨event, hmem, heq⟩
    cases event <;> simp_all
  · intro hmem
    exact ⟨.txDone id, hmem, rfl⟩

theorem doneIds_silent {events : List DsmEvent} (h : ∀ event ∈ events, event.Silent) :
    doneIds events = [] := by
  refine List.filterMap_eq_nil_iff.mpr (fun event hevent => ?_)
  have hsilent := h event hevent
  cases event <;> simp_all [DsmEvent.Silent]

/-- Every store is done only after it was applied. -/
def RetiredInOrder (history : List DsmEvent) : Prop :=
  ∀ done id later, history = done ++ .txDone id :: later →
    ∀ t, .accepted t ∈ history → t.id = id → t.cls.isStore = true → .applied id ∈ done

/-- One more event. A completion needs its store applied, and nothing is accepted that
was done before. -/
theorem RetiredInOrder.concat {history : List DsmEvent} (h : RetiredInOrder history)
    (event : DsmEvent)
    (hdone : ∀ id, event = .txDone id → ∀ t, .accepted t ∈ history → t.id = id →
      t.cls.isStore = true → .applied id ∈ history)
    (hfresh : ∀ t, event = .accepted t → .txDone t.id ∉ history) :
    RetiredInOrder (history ++ [event]) := by
  intro done id later heq t ht hid hstore
  rcases List.eq_nil_or_concat later with rfl | ⟨later', last, rfl⟩
  · -- the completion is the new event
    obtain ⟨rfl, hlast⟩ := List.append_inj' heq rfl
    obtain rfl := List.singleton_inj.mp hlast
    refine hdone id rfl t ?_ hid hstore
    simpa using ht
  · have hassoc : history ++ [event] = (done ++ .txDone id :: later') ++ [last] := by
      rw [heq, List.concat_eq_append, List.append_assoc, List.cons_append]
    obtain ⟨hold, -⟩ := List.append_inj' hassoc rfl
    rcases List.mem_append.mp ht with ht | ht
    · exact h done id later' hold t ht hid hstore
    · have hmem : DsmEvent.txDone id ∈ history := by
        rw [hold]
        exact List.mem_append_right _ List.mem_cons_self
      rw [← hid] at hmem
      exact absurd hmem (hfresh t (List.mem_singleton.mp ht).symm)

theorem RetiredInOrder.silent {history events : List DsmEvent} (h : RetiredInOrder history)
    (hsilent : ∀ event ∈ events, event.Silent) : RetiredInOrder (history ++ events) := by
  induction events generalizing history with
  | nil =>
    rw [List.append_nil]
    exact h
  | cons event events ih =>
    have hevent := hsilent event List.mem_cons_self
    rw [List.append_cons]
    refine ih (h.concat event ?_ ?_) (fun q hq => hsilent q (List.mem_cons_of_mem _ hq))
    · rintro _ rfl
      exact hevent.elim
    · rintro _ rfl
      exact hevent.elim

namespace DsmEndpoint

variable {σ : Type} {host : DsmHost σ} {guard : DsmGuard σ} {e e' : DsmEndpoint σ}
  {p : Pending} {s d id : Nat} {t : DsmTx} {events : List DsmEvent}

/-- The transactions of `m_tx` and `m_store_q`, and the history. -/
structure Tables (e : DsmEndpoint σ) : Prop where
  entry : ∀ s id t, (e.tx s).lookup id = some t →
    t.id = id ∧ t.requester = s ∧ s < e.n ∧ t.target < e.n ∧ dsmVcOf t.cls = .request
  store_iff : ∀ s d id, id ∈ e.storeQ s d ↔
    ∃ t, (e.tx s).lookup id = some t ∧ t.target = d ∧ t.cls.isStore = true
  store_nodup : ∀ s d, (e.storeQ s d).Nodup
  live : ∀ s id t, (e.tx s).lookup id = some t →
    .accepted { t with applied := false } ∈ e.history ∧ .txDone id ∉ e.history ∧
      (t.applied = true → .applied id ∈ e.history)
  settled : ∀ t, .accepted t ∈ e.history → .txDone t.id ∈ e.history ∨
    ∃ t', (e.tx t.requester).lookup t.id = some t' ∧ { t' with applied := false } = t
  unique : ∀ t t', .accepted t ∈ e.history → .accepted t' ∈ e.history → t.id = t'.id → t = t'
  bound : ∀ t, .accepted t ∈ e.history → t.id ≤ e.nextTx
  done_accepted : ∀ id, .txDone id ∈ e.history → ∃ t, .accepted t ∈ e.history ∧ t.id = id
  done_nodup : (doneIds e.history).Nodup
  retired : RetiredInOrder e.history
  size : ∀ s, (e.tx s).size ≤ e.cfg.maxOutstandingPerSm

/-- `e'` has the tables of `e`, and its history only grew by silent events. -/
structure SameTables (e e' : DsmEndpoint σ) : Prop where
  n : e'.n = e.n
  cfg : e'.cfg = e.cfg
  nextTx : e.nextTx ≤ e'.nextTx
  tx : e'.tx = e.tx
  storeQ : e'.storeQ = e.storeQ
  history : ∃ events, e'.history = e.history ++ events ∧ ∀ event ∈ events, event.Silent

theorem SameTables.mem (h : SameTables e e') {event : DsmEvent} (hloud : ¬ event.Silent) :
    event ∈ e'.history ↔ event ∈ e.history := by
  obtain ⟨events, heq, hsilent⟩ := h.history
  rw [heq, List.mem_append]
  exact or_iff_left (fun hc => hloud (hsilent event hc))

theorem Tables.same (h : Tables e) (hsame : SameTables e e') : Tables e' := by
  have hacc : ∀ t, .accepted t ∈ e'.history ↔ .accepted t ∈ e.history := fun t =>
    hsame.mem (by simp [DsmEvent.Silent])
  have hdone : ∀ id, .txDone id ∈ e'.history ↔ .txDone id ∈ e.history := fun id =>
    hsame.mem (by simp [DsmEvent.Silent])
  have happlied : ∀ id, .applied id ∈ e'.history ↔ .applied id ∈ e.history := fun id =>
    hsame.mem (by simp [DsmEvent.Silent])
  obtain ⟨events, heq, hsilent⟩ := hsame.history
  constructor
  · rw [hsame.tx, hsame.n]
    exact h.entry
  · rw [hsame.tx, hsame.storeQ]
    exact h.store_iff
  · rw [hsame.storeQ]
    exact h.store_nodup
  · intro s id t hlook
    rw [hsame.tx] at hlook
    rw [hacc, hdone, happlied]
    exact h.live s id t hlook
  · intro t ht
    rw [hacc] at ht
    rw [hdone, hsame.tx]
    exact h.settled t ht
  · intro t t' ht ht' hid
    rw [hacc] at ht ht'
    exact h.unique t t' ht ht' hid
  · intro t ht
    rw [hacc] at ht
    exact Nat.le_trans (h.bound t ht) hsame.nextTx
  · intro id hid
    rw [hdone] at hid
    obtain ⟨t, ht, rfl⟩ := h.done_accepted id hid
    exact ⟨t, (hacc t).mpr ht, rfl⟩
  · rw [heq, doneIds_append, doneIds_silent hsilent, List.append_nil]
    exact h.done_nodup
  · rw [heq]
    exact h.retired.silent hsilent
  · intro s
    rw [hsame.tx, hsame.cfg]
    exact h.size s

/-! ### A transaction is accepted -/

theorem windowOpen_spec (h : e.windowOpen s = true) :
    s < e.n ∧ (e.tx s).size < e.cfg.maxOutstandingPerSm := by
  unfold windowOpen at h
  rw [Bool.and_eq_true, decide_eq_true_eq, decide_eq_true_eq] at h
  obtain ⟨hin, hroom⟩ := h
  unfold outstanding at hroom
  rw [if_pos hin] at hroom
  exact ⟨hin, hroom⟩

theorem canSend_spec {r : IssueReq} (hvc : dsmVcOf r.cls = .request)
    (hsend : e.canSend r.cls r.src r.dst r.bytes = true) :
    r.src < e.n ∧ r.dst < e.n ∧ (e.tx r.src).size < e.cfg.maxOutstandingPerSm := by
  obtain ⟨hsrc, hdst, -⟩ := DsmFabric.accepts_spec (canSend_inject hvc hsend)
  unfold canSend at hsend
  rw [Bool.and_eq_true, Bool.and_eq_true] at hsend
  exact ⟨hsrc, hdst, (windowOpen_spec hsend.1.1).2⟩

theorem Tables.fresh (h : Tables e) (s : Nat) : (e.tx s).lookup (e.nextTx + 1) = none := by
  cases hlook : (e.tx s).lookup (e.nextTx + 1) with
  | none => rfl
  | some t =>
    have hid := (h.entry s _ t hlook).1
    have hbound := h.bound _ (h.live s _ t hlook).1
    change t.id ≤ e.nextTx at hbound
    omega

theorem Tables.not_done_fresh (h : Tables e) : .txDone (e.nextTx + 1) ∉ e.history := by
  intro hdone
  obtain ⟨t, ht, hid⟩ := h.done_accepted _ hdone
  have hbound := h.bound t ht
  omega

theorem accept_lookup (e : DsmEndpoint σ) (r : IssueReq) (fab : DsmFabric) (s id : Nat) :
    ((e.accept r fab).tx s).lookup id =
      if s = r.src ∧ id = e.nextTx + 1 then some (e.transaction r)
      else (e.tx s).lookup id := by
  change ((Function.update e.tx r.src _) s).lookup id = _
  by_cases hs : s = r.src
  · subst hs
    rw [Function.update_self, Table.lookup_insert]
    simp
  · rw [Function.update_of_ne hs, if_neg (fun hc => hs hc.1)]

theorem Tables.accept (h : Tables e) {r : IssueReq} {fab : DsmFabric}
    (hvc : dsmVcOf r.cls = .request) (hn : fab.n = e.fab.n) (hsrc : r.src < e.n)
    (hdst : r.dst < e.n) (hroom : (e.tx r.src).size < e.cfg.maxOutstandingPerSm) :
    Tables (e.accept r fab) := by
  have hn' : (e.accept r fab).n = e.n := hn
  have hlook := accept_lookup e r fab
  have hmem : ∀ event, event ∈ (e.accept r fab).history ↔
      event ∈ e.history ∨ event = .accepted (e.transaction r) := by
    intro event
    change event ∈ e.history ++ [DsmEvent.accepted (e.transaction r)] ↔ _
    rw [List.mem_append, List.mem_singleton]
  have hacc : ∀ t, .accepted t ∈ (e.accept r fab).history ↔
      .accepted t ∈ e.history ∨ t = e.transaction r := by
    intro t
    rw [hmem]
    simp
  have hdone : ∀ id, .txDone id ∈ (e.accept r fab).history ↔ .txDone id ∈ e.history := by
    intro id
    rw [hmem]
    simp
  have happlied : ∀ id, .applied id ∈ (e.accept r fab).history ↔ .applied id ∈ e.history := by
    intro id
    rw [hmem]
    simp
  constructor
  · intro s id t ht
    rw [hlook] at ht
    split at ht
    · rename_i hnew
      obtain ⟨rfl, rfl⟩ := hnew
      obtain rfl := Option.some.inj ht
      rw [hn']
      exact ⟨rfl, rfl, hsrc, hdst, hvc⟩
    · rw [hn']
      exact h.entry s id t ht
  · intro s d id
    have hstores : (e.accept r fab).storeQ s d =
        if r.cls.isStore = true ∧ s = r.src ∧ d = r.dst then
          e.storeQ r.src r.dst ++ [e.nextTx + 1]
        else e.storeQ s d := by
      change (if r.cls.isStore then _ else e.storeQ) s d = _
      by_cases hstore : r.cls.isStore = true
      · rw [if_pos hstore, update₂_apply]
        simp [hstore]
      · rw [if_neg hstore, if_neg (fun hc => hstore hc.1)]
    rw [hstores]
    constructor
    · intro hid
      split at hid
      · rename_i hpair
        obtain ⟨hstore, rfl, rfl⟩ := hpair
        rcases List.mem_append.mp hid with hid | hid
        · obtain ⟨t, ht, hrest⟩ := (h.store_iff _ _ _).mp hid
          refine ⟨t, ?_, hrest⟩
          rw [hlook, if_neg, ht]
          rintro ⟨-, rfl⟩
          rw [h.fresh] at ht
          cases ht
        · rw [List.mem_singleton.mp hid]
          refine ⟨e.transaction r, ?_, rfl, hstore⟩
          rw [hlook, if_pos ⟨rfl, rfl⟩]
      · obtain ⟨t, ht, hrest⟩ := (h.store_iff _ _ _).mp hid
        refine ⟨t, ?_, hrest⟩
        rw [hlook, if_neg, ht]
        rintro ⟨rfl, rfl⟩
        rw [h.fresh] at ht
        cases ht
    · rintro ⟨t, ht, rfl, hstore⟩
      rw [hlook] at ht
      split at ht
      · rename_i hnew
        obtain ⟨rfl, rfl⟩ := hnew
        obtain rfl := Option.some.inj ht
        have hpair : r.cls.isStore = true ∧ r.src = r.src ∧ (e.transaction r).target = r.dst :=
          ⟨hstore, rfl, rfl⟩
        rw [if_pos hpair]
        exact List.mem_append_right _ List.mem_cons_self
      · have hold := (h.store_iff s t.target id).mpr ⟨t, ht, rfl, hstore⟩
        split
        · rename_i hpair
          obtain ⟨-, rfl, htarget⟩ := hpair
          rw [htarget] at hold
          exact List.mem_append_left _ hold
        · exact hold
  · intro s d
    change ((if r.cls.isStore then _ else e.storeQ) s d).Nodup
    split
    · rw [update₂_apply]
      split
      · rw [List.nodup_append]
        refine ⟨h.store_nodup _ _, List.nodup_singleton _, ?_⟩
        intro a ha b hb
        rw [List.mem_singleton.mp hb]
        rintro rfl
        obtain ⟨t, ht, -⟩ := (h.store_iff _ _ _).mp ha
        rw [h.fresh] at ht
        cases ht
      · exact h.store_nodup s d
    · exact h.store_nodup s d
  · intro s id t ht
    rw [hlook] at ht
    rw [hacc, hdone, happlied]
    split at ht
    · rename_i hnew
      obtain ⟨rfl, rfl⟩ := hnew
      obtain rfl := Option.some.inj ht
      exact ⟨.inr rfl, h.not_done_fresh, nofun⟩
    · obtain ⟨hold, hnot, hflag⟩ := h.live s id t ht
      exact ⟨.inl hold, hnot, hflag⟩
  · intro t ht
    rw [hdone]
    rcases (hacc t).mp ht with ht | rfl
    · rcases h.settled t ht with hd | ⟨t', ht', hsame⟩
      · exact .inl hd
      · refine .inr ⟨t', ?_, hsame⟩
        rw [hlook, if_neg, ht']
        rintro ⟨hs, hid⟩
        rw [hs, hid, h.fresh] at ht'
        cases ht'
    · refine .inr ⟨e.transaction r, ?_, rfl⟩
      rw [hlook, if_pos ⟨rfl, rfl⟩]
  · intro t t' ht ht' hid
    rcases (hacc t).mp ht with ht | rfl <;> rcases (hacc t').mp ht' with ht' | rfl
    · exact h.unique t t' ht ht' hid
    · have hbound := h.bound t ht
      change t.id = e.nextTx + 1 at hid
      omega
    · have hbound := h.bound t' ht'
      change e.nextTx + 1 = t'.id at hid
      omega
    · rfl
  · intro t ht
    change t.id ≤ e.nextTx + 1
    rcases (hacc t).mp ht with ht | rfl
    · have hbound := h.bound t ht
      omega
    · exact Nat.le_refl _
  · intro id hid
    rw [hdone] at hid
    obtain ⟨t, ht, rfl⟩ := h.done_accepted id hid
    exact ⟨t, (hacc t).mpr (.inl ht), rfl⟩
  · change (doneIds (e.history ++ [DsmEvent.accepted (e.transaction r)])).Nodup
    rw [doneIds_append]
    simpa [doneIds] using h.done_nodup
  · refine h.retired.concat _ nofun ?_
    intro t ht
    obtain rfl := DsmEvent.accepted.inj ht
    exact h.not_done_fresh
  · intro s
    change ((Function.update e.tx r.src _) s).size ≤ e.cfg.maxOutstandingPerSm
    by_cases hs : s = r.src
    · subst hs
      rw [Function.update_self]
      have hle := Table.size_insert_le (e.nextTx + 1) (e.transaction r) (e.tx r.src)
      omega
    · rw [Function.update_of_ne hs]
      exact h.size s

/-! ### A store is applied -/

/-- The endpoint after the `applied` flag of a transaction is set. -/
def flagged (e : DsmEndpoint σ) (s id : Nat) (t : DsmTx) : DsmEndpoint σ :=
  { e with
    tx := Function.update e.tx s ((e.tx s).insert id { t with applied := true })
    history := e.history ++ [.applied id] }

theorem markApplied_eq (hlook : (e.tx s).lookup id = some t) (hs : s < e.n) :
    e.markApplied s id = e.flagged s id t := by
  unfold markApplied flagged
  simp only [hlook, if_pos hs]

theorem flagged_lookup (hlook : (e.tx s).lookup id = some t) (s' id' : Nat) :
    ((e.flagged s id t).tx s').lookup id' =
      if s' = s ∧ id' = id then some { t with applied := true } else (e.tx s').lookup id' := by
  change ((Function.update e.tx s _) s').lookup id' = _
  by_cases hs : s' = s
  · subst hs
    rw [Function.update_self, Table.lookup_insert]
    simp
  · rw [Function.update_of_ne hs, if_neg (fun hc => hs hc.1)]

theorem Tables.flagged (h : Tables e) (hlook : (e.tx s).lookup id = some t) :
    Tables (e.flagged s id t) := by
  have hlook' := flagged_lookup hlook
  have hmem : ∀ event, event ∈ (e.flagged s id t).history ↔
      event ∈ e.history ∨ event = .applied id := by
    intro event
    change event ∈ e.history ++ [DsmEvent.applied id] ↔ _
    rw [List.mem_append, List.mem_singleton]
  have hacc : ∀ t', .accepted t' ∈ (e.flagged s id t).history ↔ .accepted t' ∈ e.history := by
    intro t'
    rw [hmem]
    simp
  have hdone : ∀ id', .txDone id' ∈ (e.flagged s id t).history ↔ .txDone id' ∈ e.history := by
    intro id'
    rw [hmem]
    simp
  constructor
  · intro s' id' t' ht'
    rw [hlook'] at ht'
    split at ht'
    · rename_i hsame
      obtain ⟨rfl, rfl⟩ := hsame
      obtain rfl := Option.some.inj ht'
      exact h.entry s' id' t hlook
    · exact h.entry s' id' t' ht'
  · intro s' d id'
    rw [show (e.flagged s id t).storeQ = e.storeQ from rfl, h.store_iff]
    constructor
    · rintro ⟨t', ht', hrest⟩
      by_cases hsame : s' = s ∧ id' = id
      · obtain ⟨rfl, rfl⟩ := hsame
        rw [hlook] at ht'
        obtain rfl := Option.some.inj ht'
        exact ⟨{ t with applied := true }, by rw [hlook', if_pos ⟨rfl, rfl⟩], hrest⟩
      · exact ⟨t', by rw [hlook', if_neg hsame, ht'], hrest⟩
    · rintro ⟨t', ht', hrest⟩
      rw [hlook'] at ht'
      split at ht'
      · rename_i hsame
        obtain ⟨rfl, rfl⟩ := hsame
        obtain rfl := Option.some.inj ht'
        exact ⟨t, hlook, hrest⟩
      · exact ⟨t', ht', hrest⟩
  · exact h.store_nodup
  · intro s' id' t' ht'
    rw [hlook'] at ht'
    rw [hacc, hdone, hmem]
    split at ht'
    · rename_i hsame
      obtain ⟨rfl, rfl⟩ := hsame
      obtain rfl := Option.some.inj ht'
      obtain ⟨hold, hnot, -⟩ := h.live s' id' t hlook
      exact ⟨hold, hnot, fun _ => .inr rfl⟩
    · obtain ⟨hold, hnot, hflag⟩ := h.live s' id' t' ht'
      exact ⟨hold, hnot, fun hc => .inl (hflag hc)⟩
  · intro t' ht'
    rw [hdone]
    rcases h.settled t' ((hacc t').mp ht') with hd | ⟨t'', ht'', hsame⟩
    · exact .inl hd
    · by_cases hpair : t'.requester = s ∧ t'.id = id
      · rw [hpair.1, hpair.2, hlook] at ht''
        obtain rfl := Option.some.inj ht''
        refine .inr ⟨{ t with applied := true }, ?_, hsame⟩
        rw [hlook', if_pos hpair]
      · refine .inr ⟨t'', ?_, hsame⟩
        rw [hlook', if_neg hpair, ht'']
  · intro t₁ t₂ ht₁ ht₂ hid
    exact h.unique t₁ t₂ ((hacc t₁).mp ht₁) ((hacc t₂).mp ht₂) hid
  · exact fun t' ht' => h.bound t' ((hacc t').mp ht')
  · intro id' hid'
    obtain ⟨t', ht', rfl⟩ := h.done_accepted id' ((hdone id').mp hid')
    exact ⟨t', (hacc t').mpr ht', rfl⟩
  · change (doneIds (e.history ++ [DsmEvent.applied id])).Nodup
    rw [doneIds_append]
    simpa [doneIds] using h.done_nodup
  · exact h.retired.concat _ nofun nofun
  · intro s'
    change ((Function.update e.tx s _) s').size ≤ e.cfg.maxOutstandingPerSm
    by_cases hs : s' = s
    · subst hs
      rw [Function.update_self, Table.size_insert_present hlook]
      exact h.size s'
    · rw [Function.update_of_ne hs]
      exact h.size s'

/-! ### A transaction is done -/

/-- The endpoint after a transaction left its table. -/
def finished (e : DsmEndpoint σ) (s id : Nat) (storeQ : Nat → Nat → List Nat) : DsmEndpoint σ :=
  { e with
    tx := Function.update e.tx s ((e.tx s).erase id)
    storeQ := storeQ
    history := e.history ++ [.txDone id] }

theorem finished_lookup (e : DsmEndpoint σ) (s id : Nat) (storeQ : Nat → Nat → List Nat)
    (s' id' : Nat) :
    ((e.finished s id storeQ).tx s').lookup id' =
      if s' = s ∧ id' = id then none else (e.tx s').lookup id' := by
  change ((Function.update e.tx s _) s').lookup id' = _
  by_cases hs : s' = s
  · subst hs
    rw [Function.update_self, Table.lookup_erase]
    simp
  · rw [Function.update_of_ne hs, if_neg (fun hc => hs hc.1)]

/-- The store queues a completion leaves: a store leaves the front of its queue. -/
inductive StoreLeaves (e : DsmEndpoint σ) (s id : Nat) (t : DsmTx) :
    (Nat → Nat → List Nat) → Prop
  | store {rest : List Nat} (hstore : t.cls.isStore = true)
      (hqueue : e.storeQ s t.target = id :: rest) (happlied : .applied id ∈ e.history) :
      StoreLeaves e s id t (update₂ e.storeQ s t.target rest)
  | other (hstore : t.cls.isStore = false) : StoreLeaves e s id t e.storeQ

theorem Tables.finished (h : Tables e) (hlook : (e.tx s).lookup id = some t)
    {storeQ : Nat → Nat → List Nat} (hstores : StoreLeaves e s id t storeQ) :
    Tables (e.finished s id storeQ) := by
  obtain ⟨hid, hreq, -, -, -⟩ := h.entry s id t hlook
  obtain ⟨hlive, hnotDone, -⟩ := h.live s id t hlook
  have hlook' := finished_lookup e s id storeQ
  have hmem : ∀ event, event ∈ (e.finished s id storeQ).history ↔
      event ∈ e.history ∨ event = .txDone id := by
    intro event
    change event ∈ e.history ++ [DsmEvent.txDone id] ↔ _
    rw [List.mem_append, List.mem_singleton]
  have hacc : ∀ t', .accepted t' ∈ (e.finished s id storeQ).history ↔
      .accepted t' ∈ e.history := by
    intro t'
    rw [hmem]
    simp
  -- another live transaction has another id
  have hother : ∀ s' id' t', ((e.finished s id storeQ).tx s').lookup id' = some t' →
      (e.tx s').lookup id' = some t' ∧ id' ≠ id := by
    intro s' id' t' ht'
    rw [hlook'] at ht'
    split at ht'
    · cases ht'
    · rename_i hpair
      refine ⟨ht', ?_⟩
      rintro rfl
      obtain ⟨hid', hreq', -⟩ := h.entry s' id' t' ht'
      have heq := h.unique _ _ hlive (h.live s' id' t' ht').1 (hid.trans hid'.symm)
      have hrequester := congrArg DsmTx.requester heq
      change t.requester = t'.requester at hrequester
      exact hpair ⟨by omega, rfl⟩
  constructor
  · intro s' id' t' ht'
    exact h.entry s' id' t' (hother s' id' t' ht').1
  · intro s' d id'
    have hrest : id' ∈ storeQ s' d ↔ id' ∈ e.storeQ s' d ∧ ¬ (s' = s ∧ id' = id) := by
      cases hstores with
      | @store rest hstore hqueue happlied =>
        have hnodup := h.store_nodup s t.target
        rw [hqueue, List.nodup_cons] at hnodup
        rw [update₂_apply]
        split
        · rename_i hpair
          obtain ⟨rfl, rfl⟩ := hpair
          rw [hqueue, List.mem_cons]
          constructor
          · intro hmem'
            refine ⟨.inr hmem', ?_⟩
            rintro ⟨-, rfl⟩
            exact hnodup.1 hmem'
          · rintro ⟨hmem' | hmem', hne⟩
            · exact absurd ⟨rfl, hmem'⟩ hne
            · exact hmem'
        · rename_i hpair
          refine ⟨fun hmem' => ⟨hmem', ?_⟩, fun hmem' => hmem'.1⟩
          rintro ⟨rfl, rfl⟩
          obtain ⟨t', ht', htarget, -⟩ := (h.store_iff s' d id').mp hmem'
          rw [hlook] at ht'
          obtain rfl := Option.some.inj ht'
          exact hpair ⟨rfl, htarget.symm⟩
      | other hstore =>
        refine ⟨fun hmem' => ⟨hmem', ?_⟩, fun hmem' => hmem'.1⟩
        rintro ⟨rfl, rfl⟩
        obtain ⟨t', ht', -, hstore'⟩ := (h.store_iff s' d id').mp hmem'
        rw [hlook] at ht'
        obtain rfl := Option.some.inj ht'
        rw [hstore] at hstore'
        cases hstore'
    change id' ∈ storeQ s' d ↔ _
    rw [hrest, h.store_iff]
    constructor
    · rintro ⟨⟨t', ht', hrest'⟩, hpair⟩
      exact ⟨t', by rw [hlook', if_neg hpair, ht'], hrest'⟩
    · rintro ⟨t', ht', hrest'⟩
      obtain ⟨hold, hne⟩ := hother s' id' t' ht'
      exact ⟨⟨t', hold, hrest'⟩, fun hc => hne hc.2⟩
  · intro s' d
    change (storeQ s' d).Nodup
    cases hstores with
    | @store rest hstore hqueue happlied =>
      rw [update₂_apply]
      split
      · have hnodup := h.store_nodup s t.target
        rw [hqueue, List.nodup_cons] at hnodup
        exact hnodup.2
      · exact h.store_nodup s' d
    | other hstore => exact h.store_nodup s' d
  · intro s' id' t' ht'
    obtain ⟨hold, hne⟩ := hother s' id' t' ht'
    obtain ⟨hacc', hnot, hflag⟩ := h.live s' id' t' hold
    rw [hacc, hmem, hmem]
    refine ⟨hacc', ?_, fun hc => .inl (hflag hc)⟩
    rintro (hc | hc)
    · exact hnot hc
    · exact hne (DsmEvent.txDone.inj hc)
  · intro t' ht'
    rw [hmem]
    rcases h.settled t' ((hacc t').mp ht') with hd | ⟨t'', ht'', hsame⟩
    · exact .inl (.inl hd)
    · by_cases hpair : t'.requester = s ∧ t'.id = id
      · rw [hpair.2]
        exact .inl (.inr rfl)
      · exact .inr ⟨t'', by rw [hlook', if_neg hpair, ht''], hsame⟩
  · intro t₁ t₂ ht₁ ht₂ hsame
    exact h.unique t₁ t₂ ((hacc t₁).mp ht₁) ((hacc t₂).mp ht₂) hsame
  · exact fun t' ht' => h.bound t' ((hacc t').mp ht')
  · intro id' hid'
    rcases (hmem _).mp hid' with hid' | hid'
    · obtain ⟨t', ht', rfl⟩ := h.done_accepted id' hid'
      exact ⟨t', (hacc t').mpr ht', rfl⟩
    · rw [DsmEvent.txDone.inj hid']
      exact ⟨{ t with applied := false }, (hacc _).mpr hlive, hid⟩
  · change (doneIds (e.history ++ [DsmEvent.txDone id])).Nodup
    rw [doneIds_append]
    refine List.nodup_append.mpr ⟨h.done_nodup, List.nodup_singleton _, ?_⟩
    intro a ha b hb
    rw [List.mem_singleton.mp hb]
    rintro rfl
    exact hnotDone (mem_doneIds.mp ha)
  · refine h.retired.concat _ ?_ nofun
    intro id' hdone t' ht' hid' hstore'
    obtain rfl := DsmEvent.txDone.inj hdone
    have heq := h.unique _ _ ht' hlive (hid'.trans hid.symm)
    have hcls : t'.cls = t.cls := by rw [heq]
    cases hstores with
    | store hstore hqueue happlied => exact happlied
    | other hstore =>
      rw [hcls, hstore] at hstore'
      cases hstore'
  · intro s'
    change ((Function.update e.tx s _) s').size ≤ e.cfg.maxOutstandingPerSm
    by_cases hs : s' = s
    · subst hs
      rw [Function.update_self]
      exact Nat.le_trans (Table.size_erase_le id (e.tx s')) (h.size s')
    · rw [Function.update_of_ne hs]
      exact h.size s'

end DsmEndpoint

end FlashGpuSim
