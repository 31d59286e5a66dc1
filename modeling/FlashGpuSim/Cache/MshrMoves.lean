import FlashGpuSim.Cache.Mshr

/-!
What the operations of the miss table do to the misses under way: which blocks wait for
their data, and which requests wait for each block.
-/

namespace FlashGpuSim

open Lib

namespace MshrTable

variable {cfg : CacheConfig} {m m' : MshrTable} {a b : NewAddrType} {mf : MemFetch}
  {atomic : Bool} {e : MshrEntry}

theorem probe_eq_true : m.probe a = true ↔
    ∃ e, m.data.lookup a.toNat = some e ∧ e.ready = false := by
  unfold probe
  rw [Option.any_eq_true]
  simp only [Bool.not_eq_true']

theorem probeReady_eq_true : m.probeReady a = true ↔
    ∃ e, m.data.lookup a.toNat = some e ∧ e.ready = true := by
  unfold probeReady
  rw [Option.any_eq_true]

theorem probe_of_lookup {x : Option MshrEntry} (h : m.data.lookup a.toNat = x) :
    m.probe a = x.any (fun e => !e.ready) := by
  unfold probe
  rw [h]

theorem probeReady_of_lookup {x : Option MshrEntry} (h : m.data.lookup a.toNat = x) :
    m.probeReady a = x.any (fun e => e.ready) := by
  unfold probeReady
  rw [h]

/-- The requests that wait for a block, in the order they entered. -/
def waiting (m : MshrTable) (a : NewAddrType) : List MemFetch := (m.entryAt a).list

theorem entryAt_of_some (h : m.data.lookup a.toNat = some e) : m.entryAt a = e := by
  unfold entryAt
  rw [h]
  rfl

/-- One entry of the table is written, and the others stay. -/
theorem lookup_write {data : Table MshrEntry} (a b : NewAddrType) (e : MshrEntry) :
    (data.insert a.toNat e).lookup b.toNat = if b = a then some e else data.lookup b.toNat := by
  rw [Table.lookup_insert]
  simp only [BitVec.toNat_inj]

theorem lookup_leave {data : Table MshrEntry} (a b : NewAddrType) :
    (data.erase a.toNat).lookup b.toNat = if b = a then none else data.lookup b.toNat := by
  rw [Table.lookup_erase]
  simp only [BitVec.toNat_inj]

/-- What stays true of the table: its bounds hold, every entry has requests, and the
response list names each ready entry once. -/
structure Sound (cfg : CacheConfig) (m : MshrTable) : Prop where
  size : Table.size m.data ≤ cfg.mshrEntries
  merged : ∀ (a : NewAddrType) e, m.data.lookup a.toNat = some e → e.list.length ≤ cfg.mshrMaxMerge
  nonempty : ∀ (a : NewAddrType) e, m.data.lookup a.toNat = some e → e.list ≠ []
  nodup : m.currentResponse.Nodup
  ready : ∀ a, a ∈ m.currentResponse ↔ m.probeReady a = true

theorem sound_empty {log : List MissEvent} :
    Sound cfg { data := ∅, currentResponse := [], log := log } where
  size := Nat.zero_le _
  merged := fun _ _ h => by cases h
  nonempty := fun _ _ h => by cases h
  nodup := List.nodup_nil
  ready := fun a => ⟨fun h => absurd h List.not_mem_nil, fun h => by cases h⟩

/-! ### A request enters -/

/-- A request enters the entry of its block, which keeps its place in the table. -/
structure Entered (m m' : MshrTable) (a : NewAddrType) (mf : MemFetch) (ready atomic : Bool) :
    Prop where
  here : m'.data.lookup a.toNat =
    some ⟨m.waiting a ++ [mf], atomic || (m.entryAt a).hasAtomic, ready⟩
  others : ∀ b : NewAddrType, b ≠ a → m'.data.lookup b.toNat = m.data.lookup b.toNat
  response : m'.currentResponse = m.currentResponse
  log : m'.log = m.log ++ [.entered a mf]

theorem add_spec (hok : m.add cfg a mf atomic = .ok m') :
    m.probeReady a = false ∧ m.Entered m' a mf false atomic ∧
    Table.size m'.data ≤ cfg.mshrEntries ∧
    (m.waiting a).length + 1 ≤ cfg.mshrMaxMerge := by
  unfold add at hok
  obtain ⟨_, hready, hok⟩ := bind_eq_ok hok
  obtain ⟨_, hsize, hok⟩ := bind_eq_ok hok
  obtain ⟨_, hmerge, hok⟩ := bind_eq_ok hok
  cases hok
  have hready : m.probeReady a = false := (Bool.not_eq_true' _).mp (require_true hready)
  have hentry : (m.entryAt a).ready = false := by
    unfold entryAt
    cases hlook : m.data.lookup a.toNat with
    | none => rfl
    | some e =>
      rw [probeReady_of_lookup hlook] at hready
      exact hready
  refine ⟨hready, ?_, require_ok hsize, ?_⟩
  · constructor
    · refine (lookup_write a a _).trans ((if_pos rfl).trans ?_)
      rw [← hentry]
      rfl
    · intro b hb
      rw [lookup_write, if_neg hb]
    · rfl
    · rfl
  · have hlen := require_ok hmerge
    rw [List.length_append] at hlen
    exact hlen

theorem addReady_spec (hok : m.addReady cfg a mf = .ok m') :
    m.probeReady a = true ∧ m.Entered m' a mf true false ∧
    Table.size m'.data = Table.size m.data ∧ (m.waiting a).length + 1 ≤ cfg.mshrMaxMerge := by
  unfold addReady at hok
  obtain ⟨_, hready, hok⟩ := bind_eq_ok hok
  cases hok
  obtain ⟨e, hlook, he⟩ := (Option.any_eq_true _ _).mp (require_true hready)
  rw [Bool.and_eq_true, decide_eq_true_eq] at he
  have hentry := entryAt_of_some hlook
  refine ⟨probeReady_eq_true.mpr ⟨e, hlook, he.1⟩, ?_, ?_, ?_⟩
  · constructor
    · refine (lookup_write a a _).trans ((if_pos rfl).trans ?_)
      unfold waiting
      rw [hentry, he.1, Bool.false_or]
    · intro b hb
      rw [lookup_write, if_neg hb]
    · rfl
    · rfl
  · exact Table.size_insert_present hlook _
  · unfold waiting
    rw [hentry]
    exact he.2

theorem Entered.probe {ready : Bool} (h : m.Entered m' a mf ready atomic) :
    m'.probe b = if b = a then !ready else m.probe b := by
  split
  · rename_i hb
    subst hb
    rw [probe_of_lookup h.here]
    rfl
  · rename_i hb
    unfold MshrTable.probe
    rw [h.others b hb]

theorem Entered.probeReady {ready : Bool} (h : m.Entered m' a mf ready atomic) :
    m'.probeReady b = if b = a then ready else m.probeReady b := by
  split
  · rename_i hb
    subst hb
    rw [probeReady_of_lookup h.here]
    rfl
  · rename_i hb
    unfold MshrTable.probeReady
    rw [h.others b hb]

/-- A request enters where the table has room for it. -/
theorem Entered.sound {ready : Bool} (h : m.Entered m' a mf ready atomic) (hsound : Sound cfg m)
    (hready : m.probeReady a = ready) (hsize : Table.size m'.data ≤ cfg.mshrEntries)
    (hmerge : (m.waiting a).length + 1 ≤ cfg.mshrMaxMerge) : Sound cfg m' where
  size := hsize
  merged := fun b e he => by
    rcases Decidable.eq_or_ne b a with rfl | hb
    · rw [h.here] at he
      cases he
      rw [List.length_append]
      exact hmerge
    · rw [h.others b hb] at he
      exact hsound.merged b e he
  nonempty := fun b e he => by
    rcases Decidable.eq_or_ne b a with rfl | hb
    · rw [h.here] at he
      cases he
      exact List.append_ne_nil_of_right_ne_nil _ (List.cons_ne_nil _ _)
    · rw [h.others b hb] at he
      exact hsound.nonempty b e he
  nodup := by
    rw [h.response]
    exact hsound.nodup
  ready := fun b => by
    rw [h.response, h.probeReady, hsound.ready]
    split
    · rename_i hb
      subst hb
      rw [hready]
    · exact Iff.rfl

/-! ### The data arrive -/

/-- The entry of a block becomes ready and joins the responses. -/
structure Filled (m m' : MshrTable) (a : NewAddrType) : Prop where
  before : ∃ e, m.data.lookup a.toNat = some e ∧ e.ready = false ∧
    m'.data.lookup a.toNat = some { e with ready := true }
  others : ∀ b : NewAddrType, b ≠ a → m'.data.lookup b.toNat = m.data.lookup b.toNat
  size : Table.size m'.data = Table.size m.data
  response : m'.currentResponse = m.currentResponse ++ [a]
  log : m'.log = m.log ++ [.filled a]

theorem markReady_spec (hok : m.markReady a = .ok (m', atomic)) :
    m.Filled m' a ∧ (m.entryAt a).hasAtomic = atomic := by
  unfold markReady at hok
  cases hlook : m.data.lookup a.toNat with
  | none =>
    rw [hlook] at hok
    cases hok
  | some e =>
    rw [hlook] at hok
    obtain ⟨_, hready, hok⟩ := bind_eq_ok hok
    cases hok
    have he : e.ready = false := (Bool.not_eq_true' _).mp (require_true hready)
    constructor
    · constructor
      · refine ⟨e, hlook, he, ?_⟩
        rw [lookup_write, if_pos rfl]
      · intro b hb
        rw [lookup_write, if_neg hb]
      · exact Table.size_insert_present hlook _
      · rfl
      · rfl
    · rw [entryAt_of_some hlook]

theorem Filled.probe (h : m.Filled m' a) : m'.probe b = if b = a then false else m.probe b := by
  split
  · rename_i hb
    subst hb
    obtain ⟨e, -, -, hlook⟩ := h.before
    rw [probe_of_lookup hlook]
    rfl
  · rename_i hb
    unfold MshrTable.probe
    rw [h.others b hb]

theorem Filled.probeReady (h : m.Filled m' a) :
    m'.probeReady b = if b = a then true else m.probeReady b := by
  split
  · rename_i hb
    subst hb
    obtain ⟨e, -, -, hlook⟩ := h.before
    rw [probeReady_of_lookup hlook]
    rfl
  · rename_i hb
    unfold MshrTable.probeReady
    rw [h.others b hb]

theorem Filled.notReady (h : m.Filled m' a) : m.probeReady a = false := by
  obtain ⟨e, hlook, hready, -⟩ := h.before
  rw [probeReady_of_lookup hlook]
  exact hready

theorem Filled.sound (h : m.Filled m' a) (hsound : Sound cfg m) : Sound cfg m' where
  size := by
    rw [h.size]
    exact hsound.size
  merged := fun b e he => by
    rcases Decidable.eq_or_ne b a with rfl | hb
    · obtain ⟨e', hlook, -, hlook'⟩ := h.before
      rw [hlook'] at he
      cases he
      exact hsound.merged b e' hlook
    · rw [h.others b hb] at he
      exact hsound.merged b e he
  nonempty := fun b e he => by
    rcases Decidable.eq_or_ne b a with rfl | hb
    · obtain ⟨e', hlook, -, hlook'⟩ := h.before
      rw [hlook'] at he
      cases he
      exact hsound.nonempty b e' hlook
    · rw [h.others b hb] at he
      exact hsound.nonempty b e he
  nodup := by
    rw [h.response, List.nodup_append]
    refine ⟨hsound.nodup, List.nodup_singleton a, fun b hb c hc hbc => ?_⟩
    rw [List.mem_singleton] at hc
    subst hc
    subst hbc
    have hready := (hsound.ready b).mp hb
    rw [h.notReady] at hready
    cases hready
  ready := fun b => by
    rw [h.response, h.probeReady, List.mem_append, List.mem_singleton, hsound.ready]
    split
    · rename_i hb
      exact ⟨fun _ => rfl, fun _ => .inr hb⟩
    · rename_i hb
      exact ⟨fun hm => hm.resolve_right hb, .inl⟩

/-! ### A request leaves -/

/-- The first request of the first response leaves. -/
structure Returned (m m' : MshrTable) (a : NewAddrType) (mf : MemFetch) : Prop where
  front : m.currentResponse.head? = some a
  head : ∃ list, m.waiting a = mf :: list ∧ m'.data.lookup a.toNat =
    if list.isEmpty then none else some { m.entryAt a with list := list }
  others : ∀ b : NewAddrType, b ≠ a → m'.data.lookup b.toNat = m.data.lookup b.toNat
  probe : m'.probe a = false
  log : m'.log = m.log ++ [.returned a mf]

theorem nextAccess_spec (hok : m.nextAccess = .ok (m', mf)) (hsound : Sound cfg m) :
    ∃ a, m.Returned m' a mf ∧ Sound cfg m' := by
  unfold nextAccess at hok
  cases hresponse : m.currentResponse with
  | nil =>
    rw [hresponse] at hok
    cases hok
  | cons a rest =>
    rw [hresponse] at hok
    dsimp only at hok
    have hnodup := hsound.nodup
    rw [hresponse, List.nodup_cons] at hnodup
    have hmem : a ∈ m.currentResponse := by
      rw [hresponse]
      exact List.mem_cons_self
    obtain ⟨e, hlook, hready⟩ := probeReady_eq_true.mp ((hsound.ready a).mp hmem)
    have hentry := entryAt_of_some hlook
    rw [hentry] at hok
    cases hlist : e.list with
    | nil => exact absurd hlist (hsound.nonempty a e hlook)
    | cons x list =>
      rw [hlist] at hok
      dsimp only at hok
      have hwaiting : m.waiting a = x :: list := by
        unfold waiting
        rw [hentry, hlist]
      cases list with
      | nil =>
        rw [if_pos List.isEmpty_nil] at hok
        cases hok
        have hlook' : (m.data.erase a.toNat).lookup a.toNat = none := by
          rw [lookup_leave, if_pos rfl]
        refine ⟨a, ⟨by rw [hresponse]; rfl, ⟨[], hwaiting, hlook'⟩, fun b hb => ?_, ?_, rfl⟩, ?_⟩
        · rw [lookup_leave, if_neg hb]
        · rw [probe_of_lookup hlook']
          rfl
        · constructor
          · exact (Table.size_erase_le _ _).trans hsound.size
          · intro b e' he
            rw [lookup_leave] at he
            split at he
            · cases he
            · exact hsound.merged b e' he
          · intro b e' he
            rw [lookup_leave] at he
            split at he
            · cases he
            · exact hsound.nonempty b e' he
          · exact hnodup.2
          · intro b
            rcases Decidable.eq_or_ne b a with rfl | hb
            · rw [probeReady_of_lookup hlook']
              exact ⟨fun h => absurd h hnodup.1, fun h => by cases h⟩
            · have hsame := hsound.ready b
              rw [hresponse, List.mem_cons, or_iff_right hb] at hsame
              rw [hsame]
              unfold probeReady
              rw [lookup_leave, if_neg hb]
      | cons y list =>
        rw [if_neg (by simp : ¬ (y :: list).isEmpty = true), ← hresponse] at hok
        cases hok
        have hlook' : (m.data.insert a.toNat { e with list := y :: list }).lookup a.toNat =
            some { e with list := y :: list } := by
          rw [lookup_write, if_pos rfl]
        refine ⟨a, ⟨by rw [hresponse]; rfl, ⟨y :: list, hwaiting, ?_⟩, fun b hb => ?_, ?_, rfl⟩, ?_⟩
        · rw [hlook', hentry]
          rfl
        · rw [lookup_write, if_neg hb]
        · rw [probe_of_lookup hlook']
          change (!e.ready) = false
          rw [hready]
          rfl
        · constructor
          · change Table.size (m.data.insert _ _) ≤ _
            rw [Table.size_insert_present hlook]
            exact hsound.size
          · intro b e' he
            rw [lookup_write] at he
            split at he
            · cases he
              have hlen := hsound.merged a e hlook
              rw [hlist, List.length_cons] at hlen
              exact Nat.le_of_succ_le hlen
            · exact hsound.merged b e' he
          · intro b e' he
            rw [lookup_write] at he
            split at he
            · cases he
              exact List.cons_ne_nil _ _
            · exact hsound.nonempty b e' he
          · exact hsound.nodup
          · intro b
            rw [hsound.ready b]
            rcases Decidable.eq_or_ne b a with rfl | hb
            · rw [probeReady_of_lookup hlook, probeReady_of_lookup hlook']
              exact Iff.rfl
            · unfold probeReady
              rw [lookup_write, if_neg hb]

theorem Returned.ready (h : m.Returned m' a mf) (hsound : Sound cfg m) :
    m.probeReady a = true := by
  apply (hsound.ready a).mp
  exact List.mem_of_mem_head? h.front

theorem Returned.probe_eq (h : m.Returned m' a mf) (hsound : Sound cfg m) (b : NewAddrType) :
    m'.probe b = m.probe b := by
  rcases Decidable.eq_or_ne b a with rfl | hb
  · obtain ⟨e, hlook, hready⟩ := probeReady_eq_true.mp (h.ready hsound)
    rw [h.probe, probe_of_lookup hlook]
    change false = !e.ready
    rw [hready]
    rfl
  · unfold MshrTable.probe
    rw [h.others b hb]

end MshrTable

end FlashGpuSim
