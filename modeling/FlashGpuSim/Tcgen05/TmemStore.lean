import FlashGpuSim.Tcgen05.Tmem
import Mathlib.Data.List.GetD

/-!
The tensor memory as a store: each read yields the words that were written last, and the
allocations of a scope are disjoint ranges of columns whose words start at zero.
-/

namespace FlashGpuSim

open Lib

theorem tmemAddress_eq {lane column : Nat} (hcolumn : column ≤ tmemFieldMask) :
    tmemAddress lane column = lane * 2 ^ 16 + column := by
  unfold tmemAddress
  rw [← Nat.shiftLeft_add_eq_or_of_lt (Nat.lt_succ_of_le hcolumn), Nat.shiftLeft_eq]

/-- Cells that fit their fields have different addresses. -/
theorem tmemAddress_inj {lane column lane' column' : Nat} (h : column ≤ tmemFieldMask)
    (h' : column' ≤ tmemFieldMask) :
    tmemAddress lane column = tmemAddress lane' column' ↔ lane = lane' ∧ column = column' := by
  rw [tmemAddress_eq h, tmemAddress_eq h']
  unfold tmemFieldMask at h h'
  omega

theorem encodeTmemAddress_ok {lane column address : Nat}
    (h : encodeTmemAddress lane column = .ok address) :
    lane ≤ tmemFieldMask ∧ column ≤ tmemFieldMask ∧ address = tmemAddress lane column := by
  obtain ⟨_, hlane, h⟩ := bind_eq_ok h
  obtain ⟨_, hcolumn, h⟩ := bind_eq_ok h
  cases h
  exact ⟨require_ok hlane, require_ok hcolumn, rfl⟩

/-- The entry that a search finds is the one that an erasure takes out. -/
theorem perm_eraseP {α : Type} {p : α → Bool} {l : List α} {a : α} (h : l.find? p = some a) :
    l.Perm (a :: l.eraseP p) := by
  induction l with
  | nil => cases h
  | cons x l ih =>
    cases hx : p x with
    | true =>
      rw [List.find?_cons_of_pos hx] at h
      cases h
      rw [List.eraseP_cons_of_pos hx]
    | false =>
      rw [List.find?_cons_of_neg (by simp [hx])] at h
      rw [List.eraseP_cons_of_neg (by simp [hx])]
      exact ((ih h).cons x).trans (List.Perm.swap a x _)

/-- The lane and the column fit their fields of an address. -/
def InFields (cell : Nat × Nat) : Prop := cell.1 ≤ tmemFieldMask ∧ cell.2 ≤ tmemFieldMask

namespace TmemScopeState

variable {st st' : TmemScopeState} {cells : List ((Nat × Nat) × BitVec 32)}

/-- The word of a cell. -/
def wordAt (st : TmemScopeState) (lane column : Nat) : Option (BitVec 32) :=
  st.words (tmemAddress lane column)

theorem writeCells_cons {lane column : Nat} {value : BitVec 32}
    (hok : st.writeCells (((lane, column), value) :: cells) = .ok st') :
    InFields (lane, column) ∧ { st with
      words := Function.update st.words (tmemAddress lane column) (some value) }.writeCells cells =
        .ok st' := by
  unfold writeCells at hok
  rw [List.foldlM_cons] at hok
  obtain ⟨st₁, hfirst, hrest⟩ := bind_eq_ok hok
  obtain ⟨address, haddress, hfirst⟩ := bind_eq_ok hfirst
  obtain ⟨hlane, hcolumn, rfl⟩ := encodeTmemAddress_ok haddress
  cases hfirst
  exact ⟨⟨hlane, hcolumn⟩, hrest⟩

/-- The writes of a call change the words of their cells and nothing else. -/
theorem writeCells_spec (hok : st.writeCells cells = .ok st')
    (hcells : (cells.map Prod.fst).Nodup) :
    (∀ c ∈ cells, InFields c.1) ∧ (∃ words, st' = { st with words := words }) ∧
    ∀ lane column, column ≤ tmemFieldMask →
      (∀ value, ((lane, column), value) ∈ cells → st'.wordAt lane column = some value) ∧
      ((∀ value, ((lane, column), value) ∉ cells) →
        st'.wordAt lane column = st.wordAt lane column) := by
  induction cells generalizing st with
  | nil =>
    obtain rfl : st = st' := Except.ok.inj hok
    exact ⟨fun c hc => (by cases hc), ⟨st.words, rfl⟩, fun lane column _ =>
      ⟨fun value hv => (by cases hv), fun _ => rfl⟩⟩
  | cons cell rest ih =>
    obtain ⟨⟨l, c⟩, v⟩ := cell
    obtain ⟨hfields, hrest⟩ := writeCells_cons hok
    rw [List.map_cons, List.nodup_cons] at hcells
    obtain ⟨hall, ⟨words, hframe⟩, hvalues⟩ := ih hrest hcells.2
    refine ⟨?_, ⟨words, hframe⟩, fun lane column hcolumn => ⟨fun value hv => ?_, fun hnone => ?_⟩⟩
    · intro x hx
      rcases List.mem_cons.mp hx with rfl | hx
      · exact hfields
      · exact hall x hx
    · rcases List.mem_cons.mp hv with heq | hv
      · cases heq
        rw [(hvalues _ _ hcolumn).2 fun value hin =>
          hcells.1 (List.mem_map.mpr ⟨_, hin, rfl⟩)]
        unfold wordAt
        exact Function.update_self _ _ _
      · exact (hvalues lane column hcolumn).1 value hv
    · rw [(hvalues lane column hcolumn).2 fun value hin =>
        hnone value (List.mem_cons_of_mem _ hin)]
      have hne : tmemAddress lane column ≠ tmemAddress l c := by
        rw [ne_eq, tmemAddress_inj hcolumn hfields.2]
        rintro ⟨rfl, rfl⟩
        exact hnone v List.mem_cons_self
      dsimp only [wordAt]
      rw [Function.update_of_ne hne]

theorem readCells_spec {cells : List (Nat × Nat)} {values : List (BitVec 32)}
    (hok : st.readCells cells = .ok values) :
    (∀ c ∈ cells, InFields c) ∧ values = cells.map fun c => (st.wordAt c.1 c.2).getD 0 := by
  unfold readCells at hok
  induction cells generalizing values with
  | nil =>
    cases hok
    exact ⟨fun c hc => (by cases hc), rfl⟩
  | cons cell rest ih =>
    obtain ⟨l, c⟩ := cell
    rw [List.mapM_cons] at hok
    obtain ⟨value, hfirst, hok⟩ := bind_eq_ok hok
    obtain ⟨more, hrest, hok⟩ := bind_eq_ok hok
    obtain ⟨address, haddress, hfirst⟩ := bind_eq_ok hfirst
    obtain ⟨hlane, hcolumn, rfl⟩ := encodeTmemAddress_ok haddress
    cases hok
    cases hfirst
    obtain ⟨hall, rfl⟩ := ih hrest
    refine ⟨?_, rfl⟩
    intro x hx
    rcases List.mem_cons.mp hx with rfl | hx
    · exact ⟨hlane, hcolumn⟩
    · exact hall x hx

/-- The columns of two allocations are apart. -/
def Apart (a b : TmemAllocation) : Prop :=
  a.base + a.ncols ≤ b.base ∨ b.base + b.ncols ≤ a.base

/-- The live and the retired allocations are disjoint and below the next base. -/
structure Laid (st : TmemScopeState) : Prop where
  apart : (st.allocations ++ st.retiredAllocations).Pairwise Apart
  below : ∀ a ∈ st.allocations ++ st.retiredAllocations, a.base + a.ncols ≤ st.nextBase
  top : st.nextBase ≤ tmemColumnCount

theorem Apart.symm {a b : TmemAllocation} (h : Apart a b) : Apart b a := Or.symm h

theorem laid_init : ({} : TmemScopeState).Laid :=
  ⟨List.Pairwise.nil, fun a ha => (by cases ha), Nat.zero_le _⟩

theorem Laid.alloc (h : st.Laid) {ncols base : Nat} (hok : st.alloc ncols = .ok (base, st')) :
    st'.Laid ∧ base = st.nextBase ∧ st'.nextBase = st.nextBase + ncols ∧
      st'.words = st.words := by
  obtain ⟨_, -, hok⟩ := bind_eq_ok hok
  obtain ⟨_, hrange, hok⟩ := bind_eq_ok hok
  obtain ⟨_, -, hok⟩ := bind_eq_ok hok
  obtain ⟨_, -, hok⟩ := bind_eq_ok hok
  obtain ⟨_, hroom, hok⟩ := bind_eq_ok hok
  obtain ⟨_, -, hok⟩ := bind_eq_ok hok
  have hrange := require_ok hrange
  have hroom := require_ok hroom
  cases hok
  refine ⟨⟨?_, ?_, ?_⟩, rfl, rfl, rfl⟩
  · dsimp only
    have hperm : (st.allocations ++ [(⟨st.nextBase, ncols⟩ : TmemAllocation)] ++
        st.retiredAllocations).Perm
        (⟨st.nextBase, ncols⟩ :: (st.allocations ++ st.retiredAllocations)) := by
      rw [List.append_assoc, List.singleton_append]
      exact List.perm_middle
    rw [hperm.pairwise_iff Apart.symm, List.pairwise_cons]
    exact ⟨fun a ha => .inr (h.below a ha), h.apart⟩
  · intro a ha
    simp only [List.mem_append, List.mem_singleton] at ha
    dsimp only
    rcases ha with (ha | rfl) | ha
    · have hle := h.below a (List.mem_append_left _ ha)
      omega
    · exact Nat.le_refl _
    · have hle := h.below a (List.mem_append_right _ ha)
      omega
  · dsimp only
    unfold tmemColumnCount tmemFieldMask at hroom ⊢
    unfold tmemMaxAllocColumns at hrange
    omega

theorem Laid.dealloc (h : st.Laid) {base ncols : Nat} (hok : st.dealloc base ncols = .ok st') :
    st'.Laid ∧ st'.nextBase = st.nextBase ∧ st'.words = st.words := by
  obtain ⟨_, -, hok⟩ := bind_eq_ok hok
  obtain ⟨_, -, hok⟩ := bind_eq_ok hok
  dsimp only at hok
  split at hok
  · cases hok
  · rename_i a hfind
    obtain ⟨_, -, hok⟩ := bind_eq_ok hok
    cases hok
    obtain ⟨column, hcolumn⟩ : ∃ column, (decodeTmemAddress base).column = column := ⟨_, rfl⟩
    rw [hcolumn] at hfind ⊢
    obtain ⟨live, hlive⟩ : ∃ live, st.allocations.eraseP (fun x => x.base = column) = live :=
      ⟨_, rfl⟩
    have hperm : st.allocations.Perm (a :: live) := hlive ▸ perm_eraseP hfind
    have hold : (st.allocations ++ st.retiredAllocations).Perm
        (a :: (live ++ st.retiredAllocations)) := hperm.append_right _
    have hsub : List.Sublist
        (live ++ st.retiredAllocations.filter fun x => x.base ≠ column)
        (live ++ st.retiredAllocations) :=
      (List.Sublist.refl live).append List.filter_sublist
    have hnew : (live ++ (st.retiredAllocations.filter (fun x => x.base ≠ column) ++ [a])).Perm
        (a :: (live ++ st.retiredAllocations.filter fun x => x.base ≠ column)) := by
      rw [← List.append_assoc]
      exact List.perm_append_singleton a _
    have hapart := h.apart
    rw [hold.pairwise_iff Apart.symm] at hapart
    rw [hlive]
    refine ⟨⟨?_, fun x hx => ?_, h.top⟩, rfl, rfl⟩
    · dsimp only
      rw [hnew.pairwise_iff Apart.symm]
      exact hapart.sublist (hsub.cons_cons a)
    · exact h.below x (hold.symm.subset ((hsub.cons_cons a).subset (hnew.subset hx)))

/-- The columns that a call may touch are below the next base. -/
theorem Laid.accessible (h : st.Laid) {address nwords : Nat}
    (haccess : (st.findAccessible address nwords).isSome = true) :
    (decodeTmemAddress address).column + nwords ≤ st.nextBase := by
  have hfound : ∀ entries, (∀ a ∈ entries, a ∈ st.allocations ++ st.retiredAllocations) →
      (findIn entries address nwords).isSome = true →
      (decodeTmemAddress address).column + nwords ≤ st.nextBase := by
    intro entries hin hsome
    unfold findIn at hsome
    dsimp only at hsome
    split at hsome
    · cases hsome
    · obtain ⟨a, ha⟩ := Option.isSome_iff_exists.mp hsome
      have hcontains := List.find?_some ha
      have hle := h.below a (hin a (List.mem_of_find?_eq_some ha))
      unfold TmemAllocation.contains at hcontains
      simp only [Bool.and_eq_true, decide_eq_true_eq] at hcontains
      omega
  unfold findAccessible at haccess
  rw [Option.isSome_or, Bool.or_eq_true] at haccess
  rcases haccess with hlive | hretired
  · exact hfound st.allocations (fun a ha => List.mem_append_left _ ha) hlive
  · exact hfound st.retiredAllocations (fun a ha => List.mem_append_right _ ha) hretired

end TmemScopeState

section Cells

variable {address rows columns lane column : Nat} {values : List (BitVec 32)}

/-- The values of a call with their cells. -/
theorem zip_range {n : Nat} (f : Nat → Nat × Nat) (hlen : values.length = n) :
    ((List.range n).map f).zip values = (List.range n).map fun k => (f k, values.getD k 0) := by
  apply List.ext_getElem
  · simp [hlen]
  · intro k hk hk'
    simp only [List.length_map, List.length_range] at hk'
    rw [List.getElem_zip, List.getElem_map, List.getElem_map, List.getElem_range,
      List.getD_eq_getElem _ _ (by omega)]

theorem nodup_cells {n : Nat} {f : Nat → Nat × Nat} (hlen : values.length = n)
    (hf : ∀ i < n, ∀ j < n, f i = f j → i = j) :
    ((((List.range n).map f).zip values).map Prod.fst).Nodup := by
  rw [List.map_fst_zip (by simp [hlen])]
  exact List.Nodup.map_on (fun i hi j hj => hf i (List.mem_range.mp hi) j (List.mem_range.mp hj))
    List.nodup_range

theorem mem_zip_range {n : Nat} {f : Nat → Nat × Nat} (hlen : values.length = n)
    {cell : Nat × Nat} {value : BitVec 32} :
    (cell, value) ∈ ((List.range n).map f).zip values ↔
      ∃ k < n, f k = cell ∧ values.getD k 0 = value := by
  rw [zip_range f hlen, List.mem_map]
  constructor
  · rintro ⟨k, hk, heq⟩
    cases heq
    exact ⟨k, List.mem_range.mp hk, rfl, rfl⟩
  · rintro ⟨k, hk, rfl, rfl⟩
    exact ⟨k, List.mem_range.mpr hk, rfl⟩

end Cells

/-- The word of a cell after a call, when it was `old` before. -/
def TmemCall.wordAfter (scope : TmemScope) (lane column : Nat) (old : BitVec 32) :
    TmemCall → BitVec 32
  | .writeWords scope' address values =>
    let first := decodeTmemAddress address
    if scope' = scope ∧ lane = first.lane ∧ first.column ≤ column ∧
        column < first.column + values.length then
      values.getD (column - first.column) 0
    else old
  | .writeMatrixWords scope' address values rows columns =>
    let first := decodeTmemAddress address
    if scope' = scope ∧ first.lane ≤ lane ∧ lane < first.lane + rows ∧
        first.column ≤ column ∧ column < first.column + columns then
      values.getD ((lane - first.lane) * columns + (column - first.column)) 0
    else old
  | .clearCta smId ctaId => if scope.smId = smId ∧ scope.ctaId = ctaId then 0 else old
  | _ => old

/-- The word that was written last to a cell of a scope, since the CTA was cleared. -/
def lastWritten (log : List TmemCall) (scope : TmemScope) (lane column : Nat) : BitVec 32 :=
  log.foldl (fun old call => call.wordAfter scope lane column old) 0

theorem lastWritten_concat (log : List TmemCall) (call : TmemCall) (scope : TmemScope)
    (lane column : Nat) : lastWritten (log ++ [call]) scope lane column =
      call.wordAfter scope lane column (lastWritten log scope lane column) := by
  simp [lastWritten, List.foldl_append]

/-- The scope of a call, if it has one scope. -/
def TmemCall.Touches (scope : TmemScope) : TmemCall → Prop
  | .alloc scope' _ | .dealloc scope' _ _ | .relinquishAllocPermit scope' |
    .writeWords scope' _ _ | .readWords scope' _ _ | .writeMatrixWords scope' _ _ _ _ |
    .readMatrixWords scope' _ _ _ | .readMatrixPackedU16 scope' _ _ _ => scope' = scope
  | .clearCta smId ctaId => scope.smId = smId ∧ scope.ctaId = ctaId

/-- What the result of a call says, by the calls before it: a read yields the words that were
written last, and a new range of columns starts at zero. -/
def TmemCall.Answers (log : List TmemCall) : TmemCall → TmemResult → Prop
  | .alloc scope ncols, result => ∃ base, result = .base base ∧
    ∀ lane ≤ tmemFieldMask, ∀ column, base ≤ column → column < base + ncols →
      lastWritten log scope lane column = 0
  | .readWords scope address nwords, result => ∃ values, result = .words values ∧
    values.length = nwords ∧ ∀ i < nwords, values[i]? = some (lastWritten log scope
      (decodeTmemAddress address).lane ((decodeTmemAddress address).column + i))
  | .readMatrixWords scope address rows columns, result => ∃ values, result = .words values ∧
    values.length = rows * columns ∧ ∀ r < rows, ∀ c < columns, values[r * columns + c]? =
      some (lastWritten log scope ((decodeTmemAddress address).lane + r)
        ((decodeTmemAddress address).column + c))
  | .readMatrixPackedU16 scope address rows columns, result => ∃ values, result = .halves values ∧
    values.length = rows * columns ∧ ∀ r < rows, ∀ c < columns, values[r * columns + c]? =
      some (halfWord (lastWritten log scope ((decodeTmemAddress address).lane + r)
        ((decodeTmemAddress address).column + c / 2)) c)
  | _, result => result = .done

namespace TmemManager

variable {m m' : TmemManager} {scope : TmemScope} {call : TmemCall} {result : TmemResult}

/-- The words and the allocations of a scope, with the history of the calls. -/
structure Stores (st : TmemScopeState) (log : List TmemCall) (scope : TmemScope) : Prop where
  laid : st.Laid
  word : ∀ lane ≤ tmemFieldMask, ∀ column ≤ tmemFieldMask,
    (st.wordAt lane column).getD 0 = lastWritten log scope lane column
  fresh : ∀ lane ≤ tmemFieldMask, ∀ column ≤ tmemFieldMask, st.nextBase ≤ column →
    st.wordAt lane column = none

theorem stores_init (scope : TmemScope) : Stores {} [] scope :=
  ⟨TmemScopeState.laid_init, fun _ _ _ _ => rfl, fun _ _ _ _ _ => rfl⟩

variable {st st' : TmemScopeState} {log : List TmemCall}

/-- A call that writes no cell of the scope. -/
theorem Stores.quiet (h : Stores st log scope) (hlaid : st'.Laid)
    (hwords : st'.words = st.words) (hbase : st.nextBase ≤ st'.nextBase)
    (hcall : ∀ lane column old, call.wordAfter scope lane column old = old) :
    Stores st' (log ++ [call]) scope := by
  have hword : ∀ lane column, st'.wordAt lane column = st.wordAt lane column := by
    intro lane column
    unfold TmemScopeState.wordAt
    rw [hwords]
  refine ⟨hlaid, fun lane hlane column hcolumn => ?_, fun lane hlane column hcolumn hle => ?_⟩
  · rw [hword, lastWritten_concat, hcall]
    exact h.word lane hlane column hcolumn
  · rw [hword]
    exact h.fresh lane hlane column hcolumn (hbase.trans hle)

/-- The cells of a call are written. -/
theorem Stores.write (h : Stores st log scope) {cells : List ((Nat × Nat) × BitVec 32)}
    (hok : st.writeCells cells = .ok st') (hnodup : (cells.map Prod.fst).Nodup)
    (hbelow : ∀ c ∈ cells, c.1.2 < st.nextBase)
    (hput : ∀ lane column value, ((lane, column), value) ∈ cells →
      ∀ old, call.wordAfter scope lane column old = value)
    (hkeep : ∀ lane column, (∀ value, ((lane, column), value) ∉ cells) →
      ∀ old, call.wordAfter scope lane column old = old) :
    Stores st' (log ++ [call]) scope := by
  obtain ⟨-, ⟨words, hframe⟩, hvalues⟩ := TmemScopeState.writeCells_spec hok hnodup
  have hlaid : st'.Laid := by
    rw [hframe]
    exact ⟨h.laid.apart, h.laid.below, h.laid.top⟩
  have hbase : st'.nextBase = st.nextBase := by rw [hframe]
  refine ⟨hlaid, fun lane hlane column hcolumn => ?_, fun lane hlane column hcolumn hle => ?_⟩
  · rw [lastWritten_concat]
    by_cases hin : ∃ value, ((lane, column), value) ∈ cells
    · obtain ⟨value, hvalue⟩ := hin
      rw [(hvalues lane column hcolumn).1 value hvalue, hput lane column value hvalue]
      rfl
    · rw [not_exists] at hin
      rw [(hvalues lane column hcolumn).2 hin, hkeep lane column hin]
      exact h.word lane hlane column hcolumn
  · rw [hbase] at hle
    rw [(hvalues lane column hcolumn).2 fun value hin => ?_]
    · exact h.fresh lane hlane column hcolumn hle
    · have hlt := hbelow _ hin
      exact absurd hlt (Nat.not_lt_of_le hle)

/-- The state of another scope stays, and so does what was written to it. -/
theorem Stores.elsewhere (h : Stores st log scope) (hcall : ¬ call.Touches scope) :
    Stores st (log ++ [call]) scope := by
  refine h.quiet h.laid rfl (Nat.le_refl _) fun lane column old => ?_
  cases call with
  | writeWords scope' address values =>
    exact if_neg fun hcond => hcall hcond.1
  | writeMatrixWords scope' address values rows columns =>
    exact if_neg fun hcond => hcall hcond.1
  | clearCta smId ctaId => exact if_neg hcall
  | _ => rfl

/-- Every scope stores its history. -/
def Faithful (m : TmemManager) : Prop :=
  ∀ scope, Stores (m.getOrCreateScope scope) m.log scope

theorem getOrCreateScope_setScope (m : TmemManager) (scope other : TmemScope)
    (st : TmemScopeState) : (m.setScope scope st).getOrCreateScope other =
      if other = scope then st else m.getOrCreateScope other := by
  unfold getOrCreateScope setScope
  rcases eq_or_ne other scope with rfl | hne
  · simp
  · simp [hne]

/-- A call on one scope, by what it does to that scope. -/
theorem Faithful.setScope (h : m.Faithful) (htouch : ∀ other, call.Touches other → scope = other)
    (hst : Stores st (m.log ++ [call]) scope) :
    ({ m.setScope scope st with log := m.log ++ [call] } : TmemManager).Faithful := by
  intro other
  have hget : ({ m.setScope scope st with log := m.log ++ [call] } :
      TmemManager).getOrCreateScope other = if other = scope then st
        else m.getOrCreateScope other := getOrCreateScope_setScope m scope other st
  rw [hget]
  split
  · rename_i heq
    rw [heq]
    exact hst
  · rename_i hne
    exact (h other).elsewhere fun hcall => hne (htouch other hcall).symm

theorem Stores.writeRow (h : Stores st log scope) {address : Nat} {values : List (BitVec 32)}
    (haccess : (st.findAccessible address (values.length % 2 ^ 32)).isSome = true)
    (hok : st.writeCells ((rowCells address values.length).zip values) = .ok st') :
    Stores st' (log ++ [TmemCall.writeWords scope address values]) scope := by
  obtain ⟨a, ha⟩ : ∃ a, decodeTmemAddress address = a := ⟨_, rfl⟩
  have hnodup : (((rowCells address values.length).zip values).map Prod.fst).Nodup := by
    apply nodup_cells rfl
    intro i _ j _ heq
    have hcolumn := congrArg Prod.snd heq
    dsimp only at hcolumn
    omega
  have hmem : ∀ lane column value, ((lane, column), value) ∈
      (rowCells address values.length).zip values ↔
        ∃ k < values.length, (a.lane, a.column + k) = (lane, column) ∧
          values.getD k 0 = value := by
    intro lane column value
    unfold rowCells
    rw [mem_zip_range rfl, ha]
  have hfields := (TmemScopeState.writeCells_spec hok hnodup).1
  have hsmall : values.length < 2 ^ 32 := by
    rcases Nat.eq_zero_or_pos values.length with hzero | hpos
    · omega
    · have hlast := hfields _ ((hmem a.lane (a.column + (values.length - 1)) _).mpr
        ⟨values.length - 1, by omega, rfl, rfl⟩)
      have hcolumn := hlast.2
      unfold tmemFieldMask at hcolumn
      dsimp only at hcolumn
      omega
  rw [Nat.mod_eq_of_lt hsmall] at haccess
  have hroom := h.laid.accessible haccess
  rw [ha] at hroom
  refine h.write hok hnodup ?_ ?_ ?_
  · rintro ⟨⟨lane, column⟩, value⟩ hin
    obtain ⟨k, hk, heq, -⟩ := (hmem lane column value).mp hin
    cases heq
    dsimp only
    omega
  · intro lane column value hin old
    obtain ⟨k, hk, heq, rfl⟩ := (hmem lane column value).mp hin
    cases heq
    dsimp only [TmemCall.wordAfter]
    rw [ha, if_pos ⟨rfl, rfl, Nat.le_add_right _ _, by omega⟩, Nat.add_sub_cancel_left]
  · intro lane column hnone old
    dsimp only [TmemCall.wordAfter]
    rw [ha]
    apply if_neg
    rintro ⟨-, rfl, hle, hlt⟩
    refine hnone _ ((hmem a.lane column _).mpr ⟨column - a.column, by omega, ?_, rfl⟩)
    rw [Nat.add_sub_cancel' hle]

theorem div_mod_cell {columns r c : Nat} (hc : c < columns) :
    (r * columns + c) / columns = r ∧ (r * columns + c) % columns = c := by
  have hpos : 0 < columns := Nat.lt_of_le_of_lt (Nat.zero_le _) hc
  rw [Nat.add_comm]
  refine ⟨?_, ?_⟩
  · rw [Nat.add_mul_div_right _ _ hpos, Nat.div_eq_of_lt hc, Nat.zero_add]
  · rw [Nat.add_mul_mod_self_right, Nat.mod_eq_of_lt hc]

theorem cell_lt {rows columns r c : Nat} (hr : r < rows) (hc : c < columns) :
    r * columns + c < rows * columns := by
  have hmul : (r + 1) * columns ≤ rows * columns := Nat.mul_le_mul_right _ hr
  rw [Nat.succ_mul] at hmul
  omega

theorem Stores.writeMatrix (h : Stores st log scope) {address rows columns : Nat}
    {values : List (BitVec 32)} (hlen : values.length = rows * columns) (hpos : 0 < columns)
    (haccess : (st.findAccessible address columns).isSome = true)
    (hok : st.writeCells ((matrixCells address rows columns).zip values) = .ok st') :
    Stores st' (log ++ [TmemCall.writeMatrixWords scope address values rows columns]) scope := by
  obtain ⟨a, ha⟩ : ∃ a, decodeTmemAddress address = a := ⟨_, rfl⟩
  have hnodup : (((matrixCells address rows columns).zip values).map Prod.fst).Nodup := by
    apply nodup_cells hlen
    intro i _ j _ heq
    have hlane := congrArg Prod.fst heq
    have hcolumn := congrArg Prod.snd heq
    dsimp only at hlane hcolumn
    rw [← Nat.div_add_mod i columns, ← Nat.div_add_mod j columns, Nat.add_left_cancel hlane,
      Nat.add_left_cancel hcolumn]
  have hmem : ∀ lane column value, ((lane, column), value) ∈
      (matrixCells address rows columns).zip values ↔
        ∃ k < rows * columns, (a.lane + k / columns, a.column + k % columns) = (lane, column) ∧
          values.getD k 0 = value := by
    intro lane column value
    unfold matrixCells
    rw [mem_zip_range hlen, ha]
  have hroom := h.laid.accessible haccess
  rw [ha] at hroom
  refine h.write hok hnodup ?_ ?_ ?_
  · rintro ⟨⟨lane, column⟩, value⟩ hin
    obtain ⟨k, hk, heq, -⟩ := (hmem lane column value).mp hin
    cases heq
    have hmod := Nat.mod_lt k hpos
    dsimp only
    omega
  · intro lane column value hin old
    obtain ⟨k, hk, heq, rfl⟩ := (hmem lane column value).mp hin
    cases heq
    have hrow : k / columns < rows := by
      rw [Nat.div_lt_iff_lt_mul hpos]
      exact hk
    have hcolumn := Nat.mod_lt k hpos
    dsimp only [TmemCall.wordAfter]
    rw [ha, if_pos ⟨rfl, Nat.le_add_right _ _, by omega, Nat.le_add_right _ _, by omega⟩,
      Nat.add_sub_cancel_left, Nat.add_sub_cancel_left, Nat.mul_comm, Nat.div_add_mod]
  · intro lane column hnone old
    dsimp only [TmemCall.wordAfter]
    rw [ha]
    apply if_neg
    rintro ⟨-, hlane, hlane', hle, hlt⟩
    have hc : column - a.column < columns := by omega
    obtain ⟨hdiv, hmod⟩ := div_mod_cell (r := lane - a.lane) hc
    refine hnone _ ((hmem lane column _).mpr
      ⟨(lane - a.lane) * columns + (column - a.column), cell_lt (by omega) hc, ?_, rfl⟩)
    rw [hdiv, hmod, Nat.add_sub_cancel' hlane, Nat.add_sub_cancel' hle]

theorem findScope_ok (h : m.findScope scope = .ok st) : m.getOrCreateScope scope = st := by
  unfold findScope at h
  unfold getOrCreateScope
  cases hscope : m.scopes scope with
  | none =>
    rw [hscope] at h
    cases h
  | some found =>
    rw [hscope] at h
    cases h
    rfl

theorem Stores.readWords (h : Stores st log scope) {address nwords : Nat}
    {values : List (BitVec 32)} (hok : st.readCells (rowCells address nwords) = .ok values) :
    values.length = nwords ∧ ∀ i < nwords, values[i]? = some (lastWritten log scope
      (decodeTmemAddress address).lane ((decodeTmemAddress address).column + i)) := by
  obtain ⟨hfields, rfl⟩ := TmemScopeState.readCells_spec hok
  unfold rowCells at hfields ⊢
  refine ⟨by simp, fun i hi => ?_⟩
  have hin := hfields _ (List.mem_map_of_mem (List.mem_range.mpr hi))
  simp only [List.map_map, List.getElem?_map, List.getElem?_range hi, Option.map_some]
  exact congrArg some (h.word _ hin.1 _ hin.2)

theorem Stores.readMatrix (h : Stores st log scope) {address rows columns : Nat}
    {values : List (BitVec 32)}
    (hok : st.readCells (matrixCells address rows columns) = .ok values) :
    values.length = rows * columns ∧ ∀ r < rows, ∀ c < columns, values[r * columns + c]? =
      some (lastWritten log scope ((decodeTmemAddress address).lane + r)
        ((decodeTmemAddress address).column + c)) := by
  obtain ⟨hfields, rfl⟩ := TmemScopeState.readCells_spec hok
  unfold matrixCells at hfields ⊢
  refine ⟨by simp, fun r hr c hc => ?_⟩
  have hlt := cell_lt hr hc
  obtain ⟨hdiv, hmod⟩ := div_mod_cell (r := r) hc
  have hin := hfields _ (List.mem_map_of_mem (List.mem_range.mpr hlt))
  rw [hdiv, hmod] at hin
  simp only [List.map_map, List.getElem?_map, List.getElem?_range hlt, Option.map_some,
    Function.comp_apply, hdiv, hmod]
  exact congrArg some (h.word _ hin.1 _ hin.2)

/-- A call that leaves the scopes as they are. -/
theorem Faithful.read (h : m.Faithful)
    (hcall : ∀ scope lane column old, call.wordAfter scope lane column old = old) :
    ({ m with log := m.log ++ [call] } : TmemManager).Faithful :=
  fun scope => (h scope).quiet (h scope).laid rfl (Nat.le_refl _) (hcall scope)

theorem Faithful.clear (h : m.Faithful) (smId ctaId : Nat) :
    ({ m.clearCta smId ctaId with log := m.log ++ [TmemCall.clearCta smId ctaId] } :
      TmemManager).Faithful := by
  intro scope
  have hget : ({ m.clearCta smId ctaId with log := m.log ++ [TmemCall.clearCta smId ctaId] } :
      TmemManager).getOrCreateScope scope = if scope.smId = smId ∧ scope.ctaId = ctaId then {}
        else m.getOrCreateScope scope := by
    unfold getOrCreateScope clearCta
    dsimp only
    split <;> rfl
  rw [hget]
  split
  · rename_i hin
    have hzero : ∀ lane column old, (TmemCall.clearCta smId ctaId).wordAfter scope lane column
        old = 0 := fun _ _ _ => if_pos hin
    refine ⟨TmemScopeState.laid_init, fun lane _ column _ => ?_, fun _ _ _ _ _ => rfl⟩
    rw [lastWritten_concat, hzero]
    rfl
  · rename_i hout
    exact (h scope).elsewhere hout

theorem scopes_setScope (m : TmemManager) (st : TmemScopeState) {other : TmemScope}
    (hne : ¬ scope = other) : (m.setScope scope st).scopes other = m.scopes other :=
  Function.update_of_ne (Ne.symm hne) _ _

/-- What a call does, by its history. -/
structure Meets (m : TmemManager) (call : TmemCall) (result : TmemResult) (m' : TmemManager) :
    Prop where
  faithful : ({ m' with log := m.log ++ [call] } : TmemManager).Faithful
  answers : call.Answers m.log result
  isolated : ∀ scope, ¬ call.Touches scope → m'.scopes scope = m.scopes scope

theorem Faithful.alloc (h : m.Faithful) {ncols base : Nat}
    (hok : (m.getOrCreateScope scope).alloc ncols = .ok (base, st)) :
    m.Meets (.alloc scope ncols) (.base base) (m.setScope scope st) := by
  obtain ⟨hlaid, rfl, hnext, hwords⟩ := (h scope).laid.alloc hok
  refine ⟨h.setScope (fun _ heq => heq) ((h scope).quiet hlaid hwords (by omega)
    fun _ _ _ => rfl), ⟨_, rfl, fun lane hlane column hle hlt => ?_⟩,
    fun other hne => scopes_setScope m st hne⟩
  have htop := hlaid.top
  have hcolumn : column ≤ tmemFieldMask := by
    unfold tmemColumnCount at htop
    omega
  rw [← (h scope).word lane hlane column hcolumn, (h scope).fresh lane hlane column hcolumn hle]
  rfl

theorem Faithful.dealloc (h : m.Faithful) {base ncols : Nat}
    (hok : (m.getOrCreateScope scope).dealloc base ncols = .ok st) :
    m.Meets (.dealloc scope base ncols) .done (m.setScope scope st) := by
  obtain ⟨hlaid, hnext, hwords⟩ := (h scope).laid.dealloc hok
  exact ⟨h.setScope (fun _ heq => heq) ((h scope).quiet hlaid hwords (by omega)
    fun _ _ _ => rfl), rfl, fun other hne => scopes_setScope m st hne⟩

theorem Faithful.writeWords (h : m.Faithful) {address : Nat} {values : List (BitVec 32)}
    (hok : m.writeWords scope address values = .ok m') :
    m.Meets (.writeWords scope address values) .done m' := by
  obtain ⟨_, -, hok⟩ := bind_eq_ok hok
  obtain ⟨_, haccess, hok⟩ := bind_eq_ok hok
  obtain ⟨st, hwrite, hok⟩ := bind_eq_ok hok
  cases hok
  exact ⟨h.setScope (fun _ heq => heq) ((h scope).writeRow (require_true haccess) hwrite), rfl,
    fun other hne => scopes_setScope m st hne⟩

theorem Faithful.writeMatrixWords (h : m.Faithful) {address rows columns : Nat}
    {values : List (BitVec 32)}
    (hok : m.writeMatrixWords scope address values rows columns = .ok m') :
    m.Meets (.writeMatrixWords scope address values rows columns) .done m' := by
  obtain ⟨_, hpos, hok⟩ := bind_eq_ok hok
  obtain ⟨_, hlen, hok⟩ := bind_eq_ok hok
  obtain ⟨_, haccess, hok⟩ := bind_eq_ok hok
  obtain ⟨st, hwrite, hok⟩ := bind_eq_ok hok
  cases hok
  exact ⟨h.setScope (fun _ heq => heq) ((h scope).writeMatrix (require_ok hlen)
    (require_ok hpos).2 (require_true haccess) hwrite), rfl,
    fun other hne => scopes_setScope m st hne⟩

theorem Faithful.readWords (h : m.Faithful) {address nwords : Nat} {values : List (BitVec 32)}
    (hok : m.readWords scope address nwords = .ok values) :
    m.Meets (.readWords scope address nwords) (.words values) m := by
  obtain ⟨_, -, hok⟩ := bind_eq_ok hok
  obtain ⟨st, hfind, hok⟩ := bind_eq_ok hok
  obtain ⟨_, -, hok⟩ := bind_eq_ok hok
  have hst := h scope
  rw [findScope_ok hfind] at hst
  exact ⟨h.read fun _ _ _ _ => rfl, ⟨values, rfl, hst.readWords hok⟩, fun _ _ => rfl⟩

theorem Faithful.readMatrixWords (h : m.Faithful) {address rows columns : Nat}
    {values : List (BitVec 32)} (hok : m.readMatrixWords scope address rows columns = .ok values) :
    m.Meets (.readMatrixWords scope address rows columns) (.words values) m := by
  obtain ⟨_, -, hok⟩ := bind_eq_ok hok
  obtain ⟨st, hfind, hok⟩ := bind_eq_ok hok
  obtain ⟨_, -, hok⟩ := bind_eq_ok hok
  have hst := h scope
  rw [findScope_ok hfind] at hst
  exact ⟨h.read fun _ _ _ _ => rfl, ⟨values, rfl, hst.readMatrix hok⟩, fun _ _ => rfl⟩

theorem Faithful.readMatrixPackedU16 (h : m.Faithful) {address rows columns : Nat}
    {values : List (BitVec 16)}
    (hok : m.readMatrixPackedU16 scope address rows columns = .ok values) :
    m.Meets (.readMatrixPackedU16 scope address rows columns) (.halves values) m := by
  obtain ⟨_, -, hok⟩ := bind_eq_ok hok
  obtain ⟨st, hfind, hok⟩ := bind_eq_ok hok
  obtain ⟨_, -, hok⟩ := bind_eq_ok hok
  obtain ⟨words, hread, hok⟩ := bind_eq_ok hok
  have hst := h scope
  rw [findScope_ok hfind] at hst
  obtain ⟨-, hwords⟩ := hst.readMatrix hread
  cases hok
  refine ⟨h.read fun _ _ _ _ => rfl, ⟨_, rfl, by simp, fun r hr c hc => ?_⟩, fun _ _ => rfl⟩
  obtain ⟨hdiv, hmod⟩ := div_mod_cell (r := r) hc
  have hword := hwords r hr (c / 2) (by omega)
  simp only [List.getElem?_map, List.getElem?_range (cell_lt hr hc), Option.map_some, hdiv, hmod,
    List.getD_eq_getElem?_getD, hword, Option.getD_some]

theorem Faithful.meets (h : m.Faithful) (hok : m.perform call = .ok (result, m')) :
    m.Meets call result m' := by
  cases call with
  | alloc scope ncols =>
    obtain ⟨⟨base, st⟩, halloc, hok⟩ := bind_eq_ok hok
    cases hok
    exact h.alloc halloc
  | dealloc scope base ncols =>
    obtain ⟨st, hdealloc, hok⟩ := bind_eq_ok hok
    cases hok
    exact h.dealloc hdealloc
  | relinquishAllocPermit scope =>
    cases hok
    exact ⟨h.setScope (fun _ heq => heq) ((h scope).quiet
      ⟨(h scope).laid.apart, (h scope).laid.below, (h scope).laid.top⟩ rfl (Nat.le_refl _)
      fun _ _ _ => rfl), rfl, fun other hne => scopes_setScope m _ hne⟩
  | writeWords scope address values =>
    obtain ⟨after, hwrite, hok⟩ := bind_eq_ok hok
    cases hok
    exact h.writeWords hwrite
  | readWords scope address nwords =>
    obtain ⟨values, hread, hok⟩ := bind_eq_ok hok
    cases hok
    exact h.readWords hread
  | writeMatrixWords scope address values rows columns =>
    obtain ⟨after, hwrite, hok⟩ := bind_eq_ok hok
    cases hok
    exact h.writeMatrixWords hwrite
  | readMatrixWords scope address rows columns =>
    obtain ⟨values, hread, hok⟩ := bind_eq_ok hok
    cases hok
    exact h.readMatrixWords hread
  | readMatrixPackedU16 scope address rows columns =>
    obtain ⟨values, hread, hok⟩ := bind_eq_ok hok
    cases hok
    exact h.readMatrixPackedU16 hread
  | clearCta smId ctaId =>
    cases hok
    exact ⟨h.clear smId ctaId, rfl, fun scope hout => if_neg hout⟩

theorem faithful_of_reaches (hm : Reaches step (fun _ _ => True) {} m) : m.Faithful := by
  refine hm.invariant Faithful (fun scope => stores_init scope) ?_
  intro s t call hs _ hok
  obtain ⟨⟨result, after⟩, hperform, hok⟩ := bind_eq_ok hok
  cases hok
  exact (hs.meets hperform).faithful

/-- In every history of calls the allocations of a scope are disjoint ranges of columns, and each
call answers by what was written last and leaves the other scopes alone. -/
theorem tmem_stores_words (hm : Reaches step (fun _ _ => True) {} m) :
    (∀ scope st, m.scopes scope = some st →
      (st.allocations ++ st.retiredAllocations).Pairwise TmemScopeState.Apart ∧
      ∀ a ∈ st.allocations ++ st.retiredAllocations, a.base + a.ncols ≤ tmemColumnCount) ∧
    ∀ call result m', m.perform call = .ok (result, m') →
      call.Answers m.log result ∧
      ∀ scope, ¬ call.Touches scope → m'.scopes scope = m.scopes scope := by
  have hfaithful := faithful_of_reaches hm
  refine ⟨fun scope st hst => ?_, fun call result m' hok => ?_⟩
  · have hlaid := (hfaithful scope).laid
    unfold getOrCreateScope at hlaid
    rw [hst] at hlaid
    exact ⟨hlaid.apart, fun a ha => (hlaid.below a ha).trans hlaid.top⟩
  · have hmeets := hfaithful.meets hok
    exact ⟨hmeets.answers, hmeets.isolated⟩

theorem tmem_stores_words_witness : ∃ m : TmemManager, Reaches step (fun _ _ => True) {} m ∧
    ∃ m', m.perform (.readMatrixPackedU16 ⟨0, 1, 0⟩ 0x10000 1 3) =
        .ok (.halves [0x2222, 0x1111, 0x4444], m') ∧
      (TmemCall.readMatrixPackedU16 ⟨0, 1, 0⟩ 0x10000 1 3).Answers m.log
        (.halves [0x2222, 0x1111, 0x4444]) := by
  have hrun : (runAllowed step (fun _ _ => True) {} [.alloc ⟨0, 1, 0⟩ 32,
      .writeWords ⟨0, 1, 0⟩ 0x10000 [0x11112222, 0x33334444]]).any (fun m =>
        (m.perform (.readMatrixPackedU16 ⟨0, 1, 0⟩ 0x10000 1 3)).toOption.any fun answer =>
          decide (answer.1 = .halves [0x2222, 0x1111, 0x4444])) = true := by decide +kernel
  obtain ⟨m, hm, htest⟩ := (Option.any_eq_true _ _).mp hrun
  obtain ⟨⟨result, m'⟩, hanswer, hresult⟩ := (Option.any_eq_true _ _).mp htest
  have hreach : Reaches step (fun _ _ => True) {} m := Reaches.of_runAllowed .refl hm
  cases hperform : m.perform (.readMatrixPackedU16 ⟨0, 1, 0⟩ 0x10000 1 3) with
  | error e =>
    rw [hperform] at hanswer
    cases hanswer
  | ok answer =>
    rw [hperform] at hanswer
    cases hanswer
    obtain rfl := of_decide_eq_true hresult
    exact ⟨m, hreach, m', hperform, ((tmem_stores_words hreach).2 _ _ _ hperform).1⟩

end TmemManager

end FlashGpuSim
