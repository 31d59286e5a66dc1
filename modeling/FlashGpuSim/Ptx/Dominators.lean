import FlashGpuSim.Lib.Dominance
import FlashGpuSim.Ptx.BasicBlocks

/-!
The dominators and postdominators of the blocks, and the immediate ones: the block at which the
lanes that a branch has parted come together again. The edges that `connect_break_targets` changes
are left out.
-/

namespace FlashGpuSim

open Lib

namespace FunctionInfo

/-- The successors of the block at a place of `m_basic_blocks`. -/
def successorIds (f : FunctionInfo) (bb : Nat) : Finset Nat :=
  (f.basicBlocks[bb]?.map (·.successorIds)).getD ∅

/-- The predecessors of the block at a place of `m_basic_blocks`. -/
def predecessorIds (f : FunctionInfo) (bb : Nat) : Finset Nat :=
  (f.basicBlocks[bb]?.map (·.predecessorIds)).getD ∅

/-- The assert that the ids of some blocks are their places. -/
def Numbered (f : FunctionInfo) (places : List Nat) : Prop :=
  ∀ h ∈ places, f.basicBlocks[h]?.map (·.bbId) = some h

instance (f : FunctionInfo) (places : List Nat) : Decidable (f.Numbered places) :=
  inferInstanceAs (Decidable (∀ h ∈ places, _))

/-- `find_dominators`: the dominators of every block; `none` when an assert fails. -/
def findDominators (f : FunctionInfo) : Option (Nat → Finset Nat) :=
  let n := f.basicBlocks.length
  let places := List.range' 1 (n - 1)
  if 2 ≤ n ∧ f.Numbered places then do
    let entry ← f.basicBlocks.head?
    let dominatorIds ← iterate (Finset.range n) f.predecessorIds places (n * n + 1)
      fun bb => if bb = 0 then {entry.bbId} else Finset.range n
    -- A block without predecessors loses its dominators, the entry excepted.
    return fun bb => if bb ≠ 0 ∧ f.predecessorIds bb = ∅ then ∅ else dominatorIds bb
  else none

/-- `find_postdominators`: the postdominators of every block; `none` when an assert fails. -/
def findPostdominators (f : FunctionInfo) : Option (Nat → Finset Nat) :=
  let n := f.basicBlocks.length
  let places := (List.range (n - 1)).reverse
  if 2 ≤ n ∧ f.Numbered places then do
    let exit ← f.basicBlocks.getLast?
    iterate (Finset.range n) f.successorIds places (n * n + 1)
      fun bb => if bb = n - 1 then {exit.bbId} else Finset.range n
  else none

/-- `Tmp_ids` of a block after its turn. -/
def tmpIds (f : FunctionInfo) (dominatorIds : Nat → Finset Nat) (bb : Nat) : Finset Nat :=
  closest dominatorIds (List.range f.basicBlocks.length) ((dominatorIds bb).erase bb)

/-- The first id of every set that has one. -/
def firstIds (f : FunctionInfo) (tmp : Nat → Finset Nat) (bb : Nat) : Option Nat :=
  (List.range f.basicBlocks.length).find? (· ∈ tmp bb)

/-- `find_idominators`: the immediate dominator of every block that has one; `none` when an
assert fails. -/
def findIdominators (f : FunctionInfo) (dominatorIds : Nat → Finset Nat) :
    Option (Nat → Option Nat) :=
  let n := f.basicBlocks.length
  let tmp := f.tmpIds dominatorIds
  let numIdoms := ((Finset.range n).filter fun bb => tmp bb ≠ ∅).card
  let numNopred := ((Finset.range n).filter fun bb => tmp bb = ∅ ∧ f.predecessorIds bb = ∅).card
  if 2 ≤ n ∧ f.Numbered (List.range n) ∧ numIdoms = n - numNopred then some (f.firstIds tmp)
  else none

/-- `find_ipostdominators`: the immediate postdominator of every block that has one; `none`
when an assert fails. The exit has no turn. -/
def findIpostdominators (f : FunctionInfo) (postdominatorIds : Nat → Finset Nat) :
    Option (Nat → Option Nat) :=
  let n := f.basicBlocks.length
  let tmp bb :=
    if bb < n - 1 then f.tmpIds postdominatorIds bb else (postdominatorIds bb).erase bb
  let numIpdoms := ((Finset.range n).filter fun bb => tmp bb ≠ ∅).card
  if 2 ≤ n ∧ f.Numbered (List.range n) ∧ (∀ bb < n, (tmp bb).card ≤ 1) ∧ numIpdoms = n - 1 then
    some (f.firstIds tmp)
  else none

/-- `do_pdom` of a function without `break`. -/
def doPdom (f : FunctionInfo) : Option (Nat → Option Nat) := do
  let g ← f.createBasicBlocks.connectBasicBlocks
  let dominatorIds ← g.findDominators
  let _ ← g.findIdominators dominatorIds
  let postdominatorIds ← g.findPostdominators
  g.findIpostdominators postdominatorIds

/-- `d` dominates `bb`. -/
def IsDominator (f : FunctionInfo) (d bb : Nat) : Prop := Dominates f.predecessorIds 0 d bb

/-- `d` postdominates `bb`. -/
def Postdominates (f : FunctionInfo) (d bb : Nat) : Prop :=
  Dominates f.successorIds (f.basicBlocks.length - 1) d bb

/-- The exit can be reached from `bb`. -/
def ReachesExit (f : FunctionInfo) (bb : Nat) : Prop :=
  ∃ p, RootPath f.successorIds (f.basicBlocks.length - 1) bb p

/-- The strict postdominator of `bb` that all others postdominate. -/
def ClosestPostdominator (f : FunctionInfo) (m bb : Nat) : Prop :=
  m < f.basicBlocks.length ∧ m ≠ bb ∧ f.Postdominates m bb ∧
    ∀ t < f.basicBlocks.length, t ≠ bb → f.Postdominates t bb → f.Postdominates t m

/-! ### The blocks and their edges -/

section Blocks

variable {f g : FunctionInfo} {is : List PtxInstruction} {s : BlockScan} {exitBb pos : Nat}
  {i : PtxInstruction} {bb bb' : BasicBlock} {ids : Finset Nat}

/-- The blocks of a scan are numbered in order and without edges, and instructions are only put
in them. -/
structure BlockScan.Counted (s : BlockScan) : Prop where
  finished : s.finished.map (·.bbId) = List.range s.finished.length
  bare : ∀ bb ∈ s.finished, bb.successorIds = ∅
  current : s.current.bbId = s.finished.length ∧ s.current.successorIds = ∅
  blockOf : ∀ b ∈ s.blockOf, b ≤ s.finished.length

theorem BlockScan.Counted.meetLeader (h : s.Counted) : (s.meetLeader is pos).Counted := by
  unfold BlockScan.meetLeader
  dsimp only
  split
  · constructor
    · simp [h.finished, BlockScan.close, h.current.1, List.range_succ]
    · intro bb hbb
      rcases List.mem_append.mp hbb with hbb | hbb
      · exact h.bare bb hbb
      · rw [List.mem_singleton.mp hbb]
        exact h.current.2
    · simp
    · intro b hb
      have := h.blockOf b hb
      simp only [List.length_append, List.length_singleton]
      omega
  · exact ⟨h.finished, h.bare, h.current, h.blockOf⟩

theorem BlockScan.Counted.visit (h : s.Counted) : (s.visit is pos).Counted := by
  have hmet : (if s.leaders.head? = some pos then s.meetLeader is pos else s).Counted := by
    split
    · exact h.meetLeader
    · exact h
  unfold BlockScan.visit
  dsimp only
  refine ⟨hmet.finished, hmet.bare, hmet.current, fun b hb => ?_⟩
  rcases List.mem_append.mp hb with hb | hb
  · exact hmet.blockOf b hb
  · exact (List.mem_singleton.mp hb).le

theorem scanBlocks_counted : (scanBlocks is).Counted := by
  unfold scanBlocks
  apply List.foldlRecOn
  · exact ⟨rfl, by simp, ⟨rfl, rfl⟩, by simp⟩
  · intro s hs pos _
    exact hs.visit

theorem createBasicBlocks_numbered :
    f.createBasicBlocks.basicBlocks.map (·.bbId) =
        List.range ((scanBlocks f.instructions).finished.length + 2) ∧
      ∀ bb ∈ f.createBasicBlocks.basicBlocks, bb.successorIds = ∅ := by
  have h : (scanBlocks f.instructions).Counted := scanBlocks_counted
  constructor
  · simp [createBasicBlocks, BlockScan.close, h.finished, h.current.1, List.range_succ]
  · intro bb hbb
    rcases List.mem_append.mp hbb with hbb | hbb
    · exact h.bare bb hbb
    · simp only [List.mem_cons, List.not_mem_nil, or_false] at hbb
      rcases hbb with rfl | rfl
      · exact h.current.2
      · rfl

theorem getBb_le (h : f.getBb pos = some exitBb) :
    exitBb ≤ (scanBlocks f.instructions).finished.length :=
  scanBlocks_counted.blockOf exitBb (List.mem_of_getElem? h)

theorem blockAt_le {index : Nat} (hexit : (scanBlocks f.instructions).finished.length ≤ exitBb) :
    f.blockAt exitBb index ≤ exitBb := by
  unfold blockAt
  cases hb : (f.instrMemAt index).bind f.getBb with
  | none => exact le_rfl
  | some b =>
    obtain ⟨pos, -, hpos⟩ := Option.bind_eq_some_iff.mp hb
    exact (getBb_le hpos).trans hexit

/-- The edges of a block go to blocks of the function. -/
theorem successorsOf_le (hexit : (scanBlocks f.instructions).finished.length ≤ exitBb)
    (h : f.successorsOf exitBb pos i = some ids) : ∀ s ∈ ids, s ≤ exitBb := by
  have hblock : ∀ index, f.blockAt exitBb index ≤ exitBb := fun _ => blockAt_le hexit
  have hnext : ∀ {index b : Nat}, (f.instrMemAt index).bind f.getBb = some b → b ≤ exitBb := by
    intro index b hb
    obtain ⟨pos, -, hpos⟩ := Option.bind_eq_some_iff.mp hb
    exact (getBb_le hpos).trans hexit
  have hone : ∀ {a : Nat}, a ≤ exitBb → ∀ s ∈ ({a} : Finset Nat), s ≤ exitBb := by
    intro a ha s hs
    exact (Finset.mem_singleton.mp hs).le.trans ha
  have htwo : ∀ {a b : Nat}, a ≤ exitBb → b ≤ exitBb → ∀ s ∈ ({a, b} : Finset Nat), s ≤ exitBb := by
    intro a b ha hb s hs
    rcases Finset.mem_insert.mp hs with rfl | hs
    · exact ha
    · exact hone hb s hs
  unfold successorsOf at h
  dsimp only at h
  split at h
  iterate 3
    split at h
    · rename_i hb
      split at h <;> cases h
      · exact htwo le_rfl (hnext hb)
      · exact hone le_rfl
    · cases h
      exact hone le_rfl
  · obtain ⟨target, -, h⟩ := Option.bind_eq_some_iff.mp h
    obtain ⟨addr, -, h⟩ := Option.bind_eq_some_iff.mp h
    split at h <;> cases h
    · exact htwo (hblock _) (hblock _)
    · exact hone (hblock _)
  · cases h
    exact hone (hblock _)

/-- Connecting a block changes its edges only. -/
theorem connectBlock_spec (hexit : (scanBlocks f.instructions).finished.length ≤ exitBb)
    (hlast : f.basicBlocks.length - 1 = exitBb) (hbare : bb.successorIds = ∅)
    (h : f.connectBlock bb = some bb') :
    bb'.bbId = bb.bbId ∧ ∀ s ∈ bb'.successorIds, s ≤ exitBb := by
  unfold connectBlock at h
  split at h
  · cases h
    exact ⟨rfl, by simp [hbare]⟩
  · obtain ⟨pos, -, h⟩ := Option.bind_eq_some_iff.mp h
    obtain ⟨i, -, h⟩ := Option.bind_eq_some_iff.mp h
    obtain ⟨ids, hids, h⟩ := Option.bind_eq_some_iff.mp h
    cases h
    exact ⟨rfl, successorsOf_le hexit (hlast ▸ hids)⟩

/-- The blocks of a function with an exit block, numbered in order, and edges between them. -/
structure Connected (g : FunctionInfo) : Prop where
  two : 2 ≤ g.basicBlocks.length
  numbered : g.basicBlocks.map (·.bbId) = List.range g.basicBlocks.length
  inside : ∀ bb ∈ g.basicBlocks, ∀ s ∈ bb.successorIds, s < g.basicBlocks.length
  before : ∀ bb ∈ g.basicBlocks, ∀ s ∈ bb.predecessorIds, s < g.basicBlocks.length

theorem forall₂_of_mapM_some {α β : Type} {f : α → Option β} {l : List α} {ys : List β}
    (h : l.mapM f = some ys) : List.Forall₂ (fun x y => f x = some y) l ys := by
  induction l generalizing ys with
  | nil =>
    cases h
    exact .nil
  | cons x rest ih =>
    rw [List.mapM_cons] at h
    obtain ⟨y, hy, h⟩ := Option.bind_eq_some_iff.mp h
    obtain ⟨more, hrest, h⟩ := Option.bind_eq_some_iff.mp h
    cases h
    exact .cons hy (ih hrest)

theorem map_bbId_eq {blocks blocks' : List BasicBlock}
    (h : List.Forall₂ (fun bb bb' : BasicBlock => bb'.bbId = bb.bbId) blocks blocks') :
    blocks'.map (·.bbId) = blocks.map (·.bbId) := by
  induction h with
  | nil => rfl
  | cons hbb _ ih => simp [hbb, ih]

/-- The functions that `connect_basic_blocks` gives are connected. -/
theorem connectBasicBlocks_connected (h : f.createBasicBlocks.connectBasicBlocks = some g) :
    g.Connected := by
  obtain ⟨hids, hbare⟩ := createBasicBlocks_numbered (f := f)
  let count := (scanBlocks f.instructions).finished.length
  have hlength : f.createBasicBlocks.basicBlocks.length = count + 2 := by
    simpa using congrArg List.length hids
  obtain ⟨blocks, hblocks, h⟩ := Option.bind_eq_some_iff.mp h
  cases h
  have hall := forall₂_of_mapM_some hblocks
  have hsame : blocks.length = count + 2 := hall.length_eq.symm.trans hlength
  have hspec : List.Forall₂ (fun bb bb' : BasicBlock =>
      bb'.bbId = bb.bbId ∧ ∀ s ∈ bb'.successorIds, s ≤ count + 1)
      f.createBasicBlocks.basicBlocks blocks := by
    refine List.forall₂_iff_get.mpr ⟨hall.length_eq, fun k hk hk' => ?_⟩
    have hconnect := (List.forall₂_iff_get.mp hall).2 k hk hk'
    exact connectBlock_spec (f := f.createBasicBlocks) (Nat.le_succ _) (by omega)
      (hbare _ (List.get_mem _ _)) hconnect
  have hmap : blocks.map (·.bbId) = f.createBasicBlocks.basicBlocks.map (·.bbId) :=
    map_bbId_eq (hspec.imp fun _ _ hbb => hbb.1)
  constructor
  · simp [hsame]
  · simpa [hsame, Function.comp_def] using hmap.trans hids
  · intro bb hbb s hs
    obtain ⟨bb', hbb', rfl⟩ := List.mem_map.mp hbb
    obtain ⟨k, hk, rfl⟩ := List.mem_iff_getElem.mp hbb'
    have := ((List.forall₂_iff_get.mp hspec).2 k (hspec.length_eq ▸ hk) hk).2 s hs
    simp only [List.length_map, hsame]
    omega
  · intro bb hbb s hs
    obtain ⟨bb', -, rfl⟩ := List.mem_map.mp hbb
    obtain ⟨b, hb, rfl⟩ := List.mem_map.mp (List.mem_toFinset.mp hs)
    have hmem : b.bbId ∈ blocks.map (·.bbId) :=
      List.mem_map_of_mem (List.mem_of_mem_filter hb)
    rw [hmap, hids, List.mem_range] at hmem
    simpa [hsame] using hmem

end Blocks

/-! ### The analyses -/

section Analyses

variable {f g : FunctionInfo} {bb s : Nat} {pd : Nat → Finset Nat}

theorem Connected.getElem? (h : g.Connected) (hbb : bb < g.basicBlocks.length) :
    g.basicBlocks[bb]?.map (·.bbId) = some bb := by
  have := congrArg (fun l : List Nat => l[bb]?) h.numbered
  simpa [hbb] using this

theorem Connected.numbers (h : g.Connected) {places : List Nat}
    (hplaces : ∀ bb ∈ places, bb < g.basicBlocks.length) : g.Numbered places :=
  fun bb hbb => h.getElem? (hplaces bb hbb)

theorem Connected.successorIds_lt (h : g.Connected) (hs : s ∈ g.successorIds bb) :
    s < g.basicBlocks.length := by
  unfold successorIds at hs
  cases hbb : g.basicBlocks[bb]? with
  | none => simp [hbb] at hs
  | some block =>
    rw [hbb] at hs
    exact h.inside block (List.mem_of_getElem? hbb) s hs

theorem Connected.predecessorIds_lt (h : g.Connected) (hs : s ∈ g.predecessorIds bb) :
    s < g.basicBlocks.length := by
  unfold predecessorIds at hs
  cases hbb : g.basicBlocks[bb]? with
  | none => simp [hbb] at hs
  | some block =>
    rw [hbb] at hs
    exact h.before block (List.mem_of_getElem? hbb) s hs

/-- The iteration ends with the right sets, in whatever order a pass visits the blocks. -/
theorem iterate_exact {n root : Nat} {next : Nat → Finset Nat} {places : List Nat}
    (hord : Ordered (Finset.range n) next root places) :
    ∃ S, iterate (Finset.range n) next places (n * n + 1)
        (fun bb => if bb = root then {root} else Finset.range n) = some S ∧
      Exact (Finset.range n) next root S := by
  apply (candidates_init hord).iterate hord
  apply Nat.lt_succ_of_le
  have hplaces : places.toFinset.card ≤ n := by
    rw [← Finset.card_range n]
    apply Finset.card_le_card
    intro bb hbb
    exact ((hord.mem bb).mp (List.mem_toFinset.mp hbb)).1
  have hsets : ∀ bb ∈ places.toFinset,
      (if bb = root then {root} else Finset.range n : Finset Nat).card ≤ n := by
    intro bb _
    split
    · have := Finset.mem_range.mp hord.root_mem
      rw [Finset.card_singleton]
      omega
    · rw [Finset.card_range]
  calc total places (fun bb => if bb = root then {root} else Finset.range n)
      ≤ places.toFinset.card * n := Finset.sum_le_card_nsmul _ _ _ hsets
    _ ≤ n * n := Nat.mul_le_mul_right n hplaces

/-- The passes of `find_postdominators` visit all blocks but the exit. -/
theorem Connected.postOrdered (h : g.Connected) :
    Ordered (Finset.range g.basicBlocks.length) g.successorIds (g.basicBlocks.length - 1)
      (List.range (g.basicBlocks.length - 1)).reverse := by
  have := h.two
  constructor
  · simp only [Finset.mem_range]
    omega
  · intro bb
    simp only [List.mem_reverse, List.mem_range, Finset.mem_range]
    omega
  · intro bb _ s hs
    exact Finset.mem_range.mpr (h.successorIds_lt hs)

/-- The passes of `find_dominators` visit all blocks but the entry. -/
theorem Connected.preOrdered (h : g.Connected) :
    Ordered (Finset.range g.basicBlocks.length) g.predecessorIds 0
      (List.range' 1 (g.basicBlocks.length - 1)) := by
  have := h.two
  constructor
  · simp only [Finset.mem_range]
    omega
  · intro bb
    simp only [List.mem_range'_1, Finset.mem_range]
    omega
  · intro bb _ s hs
    exact Finset.mem_range.mpr (h.predecessorIds_lt hs)

/-- `find_postdominators` ends, with the postdominators of every block. -/
theorem Connected.findPostdominators (h : g.Connected) :
    ∃ pd, g.findPostdominators = some pd ∧
      Exact (Finset.range g.basicBlocks.length) g.successorIds (g.basicBlocks.length - 1) pd := by
  have htwo := h.two
  obtain ⟨pd, hpd, hexact⟩ := iterate_exact h.postOrdered
  obtain ⟨exit, hexit⟩ : ∃ exit, g.basicBlocks.getLast? = some exit := by
    cases hlast : g.basicBlocks.getLast? with
    | none =>
      rw [List.getLast?_eq_none_iff] at hlast
      simp [hlast] at htwo
    | some exit => exact ⟨exit, rfl⟩
  have hid : exit.bbId = g.basicBlocks.length - 1 := by
    have hlast := h.getElem? (show g.basicBlocks.length - 1 < g.basicBlocks.length by omega)
    rw [← List.getLast?_eq_getElem?, hexit] at hlast
    exact Option.some.inj hlast
  refine ⟨pd, ?_, hexact⟩
  unfold FunctionInfo.findPostdominators
  dsimp only
  have hplaces : g.Numbered (List.range (g.basicBlocks.length - 1)).reverse :=
    h.numbers fun bb hbb => Finset.mem_range.mp ((h.postOrdered.mem bb).mp hbb).1
  rw [if_pos ⟨htwo, hplaces⟩, hexit]
  show iterate _ _ _ _ (fun bb => if bb = g.basicBlocks.length - 1 then {exit.bbId} else _) = _
  rw [hid]
  exact hpd

/-- `find_dominators` ends, with the dominators of every block that has predecessors and of
the entry. -/
theorem Connected.findDominators (h : g.Connected) :
    ∃ dom, g.findDominators = some dom ∧ ∀ bb < g.basicBlocks.length, ∀ d, d ∈ dom bb ↔
      d < g.basicBlocks.length ∧ g.IsDominator d bb ∧ (bb = 0 ∨ g.predecessorIds bb ≠ ∅) := by
  have htwo := h.two
  obtain ⟨dom, hdom, hexact⟩ := iterate_exact h.preOrdered
  obtain ⟨entry, hentry⟩ : ∃ entry, g.basicBlocks.head? = some entry := by
    cases hfirst : g.basicBlocks.head? with
    | none =>
      rw [List.head?_eq_none_iff] at hfirst
      simp [hfirst] at htwo
    | some entry => exact ⟨entry, rfl⟩
  have hid : entry.bbId = 0 := by
    have hfirst := h.getElem? (show 0 < g.basicBlocks.length by omega)
    rw [← List.head?_eq_getElem?, hentry] at hfirst
    exact Option.some.inj hfirst
  have hplaces : g.Numbered (List.range' 1 (g.basicBlocks.length - 1)) :=
    h.numbers fun bb hbb => Finset.mem_range.mp ((h.preOrdered.mem bb).mp hbb).1
  refine ⟨fun bb => if bb ≠ 0 ∧ g.predecessorIds bb = ∅ then ∅ else dom bb, ?_, ?_⟩
  · unfold FunctionInfo.findDominators
    dsimp only
    rw [if_pos ⟨htwo, hplaces⟩, hentry]
    show (iterate _ _ _ _ (fun bb => if bb = 0 then {entry.bbId} else _) >>= _) = _
    rw [hid, hdom]
    rfl
  · intro bb hbb d
    dsimp only
    have hright := hexact bb (Finset.mem_range.mpr hbb) d
    rw [Finset.mem_range] at hright
    split
    · rename_i hcleared
      simp [hcleared.1, hcleared.2]
    · rename_i hkept
      have hpred : bb = 0 ∨ g.predecessorIds bb ≠ ∅ := by
        by_contra hno
        rw [not_or, not_not] at hno
        exact hkept hno
      rw [hright]
      exact ⟨fun hd => ⟨hd.1, hd.2, hpred⟩, fun hd => ⟨hd.1, hd.2.1⟩⟩

/-- The exit is its only postdominator. -/
theorem Connected.erase_exit (h : g.Connected)
    (hexact : Exact (Finset.range g.basicBlocks.length) g.successorIds
      (g.basicBlocks.length - 1) pd) :
    (pd (g.basicBlocks.length - 1)).erase (g.basicBlocks.length - 1) = ∅ := by
  have htwo := h.two
  apply Finset.eq_empty_of_forall_notMem
  intro d hd
  obtain ⟨hne, hd⟩ := Finset.mem_erase.mp hd
  have hdom := ((hexact _ (Finset.mem_range.mpr (by omega)) d).mp hd).2
  exact hne (List.mem_singleton.mp (hdom _ .last))

/-- What is left of a block that reaches the exit is its closest strict postdominator. -/
theorem tmpIds_closest (hexact : Exact (Finset.range g.basicBlocks.length) g.successorIds
      (g.basicBlocks.length - 1) pd)
    (hbb : bb < g.basicBlocks.length - 1) (hreach : g.ReachesExit bb) :
    ∃ m, g.tmpIds pd bb = {m} ∧ g.ClosestPostdominator m bb := by
  have hrange : ∀ {b : Nat}, b ∈ Finset.range g.basicBlocks.length ↔ b < g.basicBlocks.length :=
    Finset.mem_range
  obtain ⟨p, hp⟩ := hreach
  obtain ⟨m, hm, htmp, hne, hdom, hrest⟩ := hexact.reaching.closest (hrange.mpr (by omega))
    (hrange.mpr (by omega)) (by omega) hp
    (fun c hc => List.mem_range.mpr (hrange.mp hc))
  exact ⟨m, htmp, hrange.mp hm, hne, hdom, fun t ht => hrest t (hrange.mpr ht)⟩

theorem firstIds_singleton {tmp : Nat → Finset Nat} {m : Nat} (htmp : tmp bb = {m})
    (hm : m < g.basicBlocks.length) : g.firstIds tmp bb = some m := by
  unfold firstIds
  rw [htmp, List.find?_eq_some_iff_getElem]
  refine ⟨by simp, m, by simpa using hm, by simp, fun j hj => ?_⟩
  simp
  omega

/-- `find_idominators` passes its asserts exactly when the entry has no predecessor: every other
block is left with a dominator or has no predecessor, and the entry is not counted. -/
theorem Connected.findIdominators_isSome (h : g.Connected) {dom : Nat → Finset Nat}
    (hdom : ∀ bb < g.basicBlocks.length, ∀ d, d ∈ dom bb ↔
      d < g.basicBlocks.length ∧ g.IsDominator d bb ∧ (bb = 0 ∨ g.predecessorIds bb ≠ ∅)) :
    (g.findIdominators dom).isSome ↔ g.predecessorIds 0 = ∅ := by
  have htwo := h.two
  have hzero : g.tmpIds dom 0 = ∅ := by
    apply Finset.subset_empty.mp
    apply closest_subset.trans
    intro d hd
    obtain ⟨hne, hd⟩ := Finset.mem_erase.mp hd
    have hpath := ((hdom 0 (by omega) d).mp hd).2.1 _ .last
    exact absurd (List.mem_singleton.mp hpath) hne
  have hother : ∀ bb < g.basicBlocks.length, bb ≠ 0 → g.predecessorIds bb ≠ ∅ →
      g.tmpIds dom bb ≠ ∅ := by
    intro bb hbb hne hpred
    apply Finset.nonempty_iff_ne_empty.mp
    apply closest_nonempty
    refine ⟨0, Finset.mem_erase.mpr ⟨Ne.symm hne, ?_⟩⟩
    exact (hdom bb hbb 0).mpr ⟨by omega, root_dominates bb, .inr hpred⟩
  let n := g.basicBlocks.length
  let idoms := (Finset.range n).filter fun bb => g.tmpIds dom bb ≠ ∅
  let nopred := (Finset.range n).filter fun bb =>
    g.tmpIds dom bb = ∅ ∧ g.predecessorIds bb = ∅
  have hapart : Disjoint idoms nopred := by
    rw [Finset.disjoint_filter]
    exact fun bb _ hne hempty => hne hempty.1
  have hinside : idoms ∪ nopred ⊆ Finset.range n :=
    Finset.union_subset (Finset.filter_subset _ _) (Finset.filter_subset _ _)
  have hall : idoms.card = n - nopred.card ↔ idoms ∪ nopred = Finset.range n := by
    have hcard := Finset.card_union_of_disjoint hapart
    have hle := Finset.card_le_card hinside
    rw [Finset.card_range] at hle
    constructor
    · intro heq
      apply Finset.eq_of_subset_of_card_le hinside
      rw [Finset.card_range]
      omega
    · intro heq
      rw [heq, Finset.card_range] at hcard
      omega
  have hentry : idoms ∪ nopred = Finset.range n ↔ g.predecessorIds 0 = ∅ := by
    constructor
    · intro heq
      have hmem : 0 ∈ idoms ∪ nopred := heq ▸ Finset.mem_range.mpr (by omega)
      rcases Finset.mem_union.mp hmem with hmem | hmem
      · exact absurd hzero (Finset.mem_filter.mp hmem).2
      · exact (Finset.mem_filter.mp hmem).2.2
    · intro hpred
      apply Finset.Subset.antisymm hinside
      intro bb hbb
      have hlt : bb < n := Finset.mem_range.mp hbb
      rw [Finset.mem_union, Finset.mem_filter, Finset.mem_filter]
      by_cases hempty : g.tmpIds dom bb = ∅
      · refine .inr ⟨hbb, hempty, ?_⟩
        by_contra hne
        by_cases hfirst : bb = 0
        · exact hne (hfirst ▸ hpred)
        · exact hother bb hlt hfirst hne hempty
      · exact .inl ⟨hbb, hempty⟩
  have hplaces : g.Numbered (List.range n) := h.numbers fun bb hbb => List.mem_range.mp hbb
  unfold findIdominators
  dsimp only
  rw [← hentry, ← hall]
  constructor
  · intro hsome
    split at hsome
    · rename_i hasserts
      exact hasserts.2.2
    · cases hsome
  · intro hcount
    rw [if_pos ⟨htwo, hplaces, hcount⟩]
    rfl

/-- Where every block reaches the exit, `find_ipostdominators` passes its asserts. -/
theorem Connected.findIpostdominators_isSome (h : g.Connected)
    (hexact : Exact (Finset.range g.basicBlocks.length) g.successorIds
      (g.basicBlocks.length - 1) pd)
    (hreach : ∀ bb < g.basicBlocks.length, g.ReachesExit bb) :
    (g.findIpostdominators pd).isSome := by
  let n := g.basicBlocks.length
  have htwo : 2 ≤ n := h.two
  let tmp := fun bb => if bb < n - 1 then g.tmpIds pd bb else (pd bb).erase bb
  have hlast : tmp (n - 1) = ∅ := by
    show (if n - 1 < n - 1 then _ else _) = _
    rw [if_neg (lt_irrefl _)]
    exact h.erase_exit hexact
  have hone : ∀ bb < n - 1, ∃ m, tmp bb = {m} := by
    intro bb hbb
    obtain ⟨m, htmp, -⟩ := tmpIds_closest hexact hbb (hreach bb (by omega))
    refine ⟨m, ?_⟩
    show (if bb < n - 1 then _ else _) = _
    rw [if_pos hbb]
    exact htmp
  have hcard : ∀ bb < n, (tmp bb).card ≤ 1 := by
    intro bb hbb
    rcases Nat.lt_or_ge bb (n - 1) with hlt | hge
    · obtain ⟨m, htmp⟩ := hone bb hlt
      simp [htmp]
    · obtain rfl : bb = n - 1 := by omega
      simp [hlast]
  have hcount : ((Finset.range n).filter fun bb => tmp bb ≠ ∅).card = n - 1 := by
    have hbefore : (Finset.range n).filter (fun bb => tmp bb ≠ ∅) = Finset.range (n - 1) := by
      ext bb
      rw [Finset.mem_filter, Finset.mem_range, Finset.mem_range]
      constructor
      · rintro ⟨hbb, hne⟩
        by_contra hge
        obtain rfl : bb = n - 1 := by omega
        exact hne hlast
      · intro hbb
        obtain ⟨m, htmp⟩ := hone bb hbb
        exact ⟨by omega, by simp [htmp]⟩
    rw [hbefore, Finset.card_range]
  have hplaces : g.Numbered (List.range n) := h.numbers fun bb hbb => List.mem_range.mp hbb
  unfold findIpostdominators
  dsimp only
  rw [if_pos ⟨htwo, hplaces, hcard, hcount⟩]
  rfl

/-- A predicated branch around one instruction. -/
def branchFunction : FunctionInfo where
  symbols r := { name := if r = 1 then "%p1" else "$L1" }
  instructions :=
    [{ opcode := some .addOp },
     { opcode := some .braOp, pred := some 1
       operands := [{ type := .label, symbolic := some 2 }] },
     { opcode := some .addOp },
     { opcode := none, label := some 2 },
     { opcode := some .exitOp }]

example : branchFunction.doPdom.map (fun ipdom => (List.range 4).map ipdom) =
    some [some 2, some 2, some 3, none] := by decide +kernel

/-- A branch back to the first instruction. -/
def entryLoop : FunctionInfo where
  symbols r := { name := if r = 1 then "%p1" else "$L1" }
  instructions :=
    [{ opcode := none, label := some 2 },
     { opcode := some .addOp },
     { opcode := some .braOp, pred := some 1
       operands := [{ type := .label, symbolic := some 2 }] },
     { opcode := some .exitOp }]

example : entryLoop.doPdom.isNone := by decide +kernel

/-- The function with its blocks. -/
def branchBlocks : FunctionInfo :=
  branchFunction.createBasicBlocks.connectBasicBlocks.getD branchFunction

theorem branchBlocks_connected :
    branchFunction.createBasicBlocks.connectBasicBlocks = some branchBlocks := by
  have hsome : branchFunction.createBasicBlocks.connectBasicBlocks.isSome := by decide +kernel
  obtain ⟨g, hg⟩ := Option.isSome_iff_exists.mp hsome
  rw [branchBlocks, hg]
  rfl

theorem branchBlocks_reachesExit :
    ∀ bb < branchBlocks.basicBlocks.length, branchBlocks.ReachesExit bb := by
  have hlength : branchBlocks.basicBlocks.length = 4 := by decide +kernel
  obtain ⟨h₀, h₁, h₂⟩ : 1 ∈ branchBlocks.successorIds 0 ∧ 2 ∈ branchBlocks.successorIds 1 ∧
      3 ∈ branchBlocks.successorIds 2 := by decide +kernel
  unfold ReachesExit
  rw [hlength]
  have hexit : RootPath branchBlocks.successorIds 3 3 [3] := .last
  have htwo := RootPath.step h₂ hexit
  have hone := RootPath.step h₁ htwo
  intro bb hbb
  obtain rfl | rfl | rfl | rfl : bb = 0 ∨ bb = 1 ∨ bb = 2 ∨ bb = 3 := by omega
  · exact ⟨_, .step h₀ hone⟩
  · exact ⟨_, hone⟩
  · exact ⟨_, htwo⟩
  · exact ⟨_, hexit⟩

/-- Of the functions whose branches name labels, `find_postdominators` finds the postdominators
of every block, and `find_dominators` the dominators of the entry and of every block that has
predecessors. -/
theorem dominators_exact (h : f.createBasicBlocks.connectBasicBlocks = some g) :
    (∃ pd, g.findPostdominators = some pd ∧ ∀ bb < g.basicBlocks.length, ∀ d,
      d ∈ pd bb ↔ d < g.basicBlocks.length ∧ g.Postdominates d bb) ∧
    ∃ dom, g.findDominators = some dom ∧ ∀ bb < g.basicBlocks.length, ∀ d, d ∈ dom bb ↔
      d < g.basicBlocks.length ∧ g.IsDominator d bb ∧ (bb = 0 ∨ g.predecessorIds bb ≠ ∅) := by
  refine ⟨?_, (connectBasicBlocks_connected h).findDominators⟩
  obtain ⟨pd, hpd, hexact⟩ := (connectBasicBlocks_connected h).findPostdominators
  refine ⟨pd, hpd, fun bb hbb d => ?_⟩
  rw [hexact bb (Finset.mem_range.mpr hbb), Finset.mem_range]
  rfl

theorem dominators_exact_witness :
    (∃ pd, branchBlocks.findPostdominators = some pd ∧
      ∀ bb < branchBlocks.basicBlocks.length, ∀ d,
        d ∈ pd bb ↔ d < branchBlocks.basicBlocks.length ∧ branchBlocks.Postdominates d bb) ∧
    ∃ dom, branchBlocks.findDominators = some dom ∧
      ∀ bb < branchBlocks.basicBlocks.length, ∀ d, d ∈ dom bb ↔
        d < branchBlocks.basicBlocks.length ∧ branchBlocks.IsDominator d bb ∧
          (bb = 0 ∨ branchBlocks.predecessorIds bb ≠ ∅) :=
  dominators_exact branchBlocks_connected

/-- Where every block reaches the exit, `do_pdom` passes its asserts exactly when no branch goes
back to the first block: `find_idominators` counts a first block with predecessors among those
that have a dominator. What it gives to a block that reaches the exit is its closest strict
postdominator. -/
theorem ipostdominators_closest (h : f.createBasicBlocks.connectBasicBlocks = some g) :
    ((∀ bb < g.basicBlocks.length, g.ReachesExit bb) →
      (f.doPdom.isSome ↔ g.predecessorIds 0 = ∅)) ∧
      ∀ ipdom, f.doPdom = some ipdom → ipdom (g.basicBlocks.length - 1) = none ∧
        ∀ bb < g.basicBlocks.length - 1, g.ReachesExit bb →
          ∃ m, ipdom bb = some m ∧ g.ClosestPostdominator m bb := by
  have hconnected := connectBasicBlocks_connected h
  obtain ⟨pd, hpd, hexact⟩ := hconnected.findPostdominators
  obtain ⟨dom, hdom, hdoms⟩ := hconnected.findDominators
  have hentry := hconnected.findIdominators_isSome hdoms
  have hrun : f.doPdom = g.findIdominators dom >>= fun _ => g.findIpostdominators pd := by
    unfold doPdom
    rw [h]
    show (g.findDominators >>= _) = _
    rw [hdom]
    show (g.findIdominators dom >>= fun _ => g.findPostdominators >>= _) = _
    rw [hpd]
    rfl
  constructor
  · intro hreach
    obtain ⟨ipdom, hipdom⟩ := Option.isSome_iff_exists.mp
      (hconnected.findIpostdominators_isSome hexact hreach)
    rw [hrun, ← hentry, hipdom]
    cases g.findIdominators dom <;> simp
  · intro ipdom hipdom
    rw [hrun] at hipdom
    obtain ⟨-, -, hipdom⟩ := Option.bind_eq_some_iff.mp hipdom
    unfold findIpostdominators at hipdom
    dsimp only at hipdom
    split at hipdom
    · cases hipdom
      refine ⟨?_, fun bb hbb hreach => ?_⟩
      · unfold firstIds
        simp [hconnected.erase_exit hexact]
      · obtain ⟨m, htmp, hclosest⟩ := tmpIds_closest hexact hbb hreach
        refine ⟨m, firstIds_singleton ?_ hclosest.1, hclosest⟩
        rw [if_pos hbb]
        exact htmp
    · cases hipdom

theorem ipostdominators_closest_witness :
    branchFunction.doPdom.isSome ∧
      ∀ ipdom, branchFunction.doPdom = some ipdom →
        ∃ m, ipdom 0 = some m ∧ branchBlocks.ClosestPostdominator m 0 := by
  have hclosest := ipostdominators_closest branchBlocks_connected
  have hfirst : branchBlocks.predecessorIds 0 = ∅ := by decide +kernel
  have hlength : 0 < branchBlocks.basicBlocks.length - 1 := by decide +kernel
  refine ⟨(hclosest.1 branchBlocks_reachesExit).mpr hfirst, fun ipdom hipdom => ?_⟩
  exact (hclosest.2 ipdom hipdom).2 0 hlength
    (branchBlocks_reachesExit 0 (Nat.lt_of_lt_of_le hlength (Nat.sub_le _ _)))

end Analyses

end FunctionInfo

end FlashGpuSim
