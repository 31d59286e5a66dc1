import Mathlib.Algebra.Order.BigOperators.Group.Finset
import Mathlib.Data.Finset.Max

/-!
Dominance in a finite graph that is given by the edges out of each node: `d` dominates `b`
when every path from `b` to the root passes `d`. With the edges of the control flow and the
exit as the root this is postdominance, with the edges turned round and the entry as the root
it is dominance. The sets of the dominators are found by iteration from above, and of the
strict dominators of a node the closest one by pruning.
-/

namespace Lib

universe u

variable {α : Type u} {next : α → Finset α} {root : α}

/-- The nodes from `b` to the root along edges. -/
inductive RootPath (next : α → Finset α) (root : α) : α → List α → Prop
  | last : RootPath next root root [root]
  | step {b s : α} {p : List α} (hs : s ∈ next b) (h : RootPath next root s p) :
      RootPath next root b (b :: p)

/-- Every path from `b` to the root passes `d`. -/
def Dominates (next : α → Finset α) (root d b : α) : Prop :=
  ∀ p, RootPath next root b p → d ∈ p

/-! ### The order of the dominators -/

section Order

variable {b d e s t : α} {p : List α}

theorem RootPath.start_mem (h : RootPath next root b p) : b ∈ p := by
  cases h <;> simp

theorem RootPath.root_mem (h : RootPath next root b p) : root ∈ p := by
  induction h with
  | last => simp
  | step _ _ ih => exact List.mem_cons_of_mem _ ih

/-- A node on a path starts a path of its own, shorter unless it is the first one. -/
theorem RootPath.suffix (h : RootPath next root b p) (he : e ∈ p) :
    ∃ q, RootPath next root e q ∧ q ⊆ p ∧ q.length ≤ p.length ∧ (e ≠ b → q.length < p.length) := by
  induction h with
  | last =>
    simp only [List.mem_singleton] at he
    subst he
    exact ⟨[e], .last, List.Subset.refl _, le_rfl, fun hne => absurd rfl hne⟩
  | @step b s p hs h ih =>
    by_cases heb : e = b
    · subst heb
      exact ⟨e :: p, .step hs h, List.Subset.refl _, le_rfl, fun hne => absurd rfl hne⟩
    · simp only [List.mem_cons, heb, false_or] at he
      obtain ⟨q, hq, hsub, hlen, -⟩ := ih he
      simp only [List.length_cons]
      exact ⟨q, hq, List.Subset.trans hsub (List.subset_cons_self _ _), by omega, fun _ => by omega⟩

theorem dominates_self (b : α) : Dominates next root b b :=
  fun _ h => h.start_mem

theorem root_dominates (b : α) : Dominates next root root b :=
  fun _ h => h.root_mem

theorem Dominates.trans (h : Dominates next root e b) (h' : Dominates next root d e) :
    Dominates next root d b := by
  intro p hp
  obtain ⟨q, hq, hsub, -⟩ := hp.suffix (h p hp)
  exact hsub (h' q hq)

/-- A dominator of a node other than itself dominates all nodes behind it. -/
theorem Dominates.of_edge (h : Dominates next root d b) (hne : d ≠ b) (hs : s ∈ next b) :
    Dominates next root d s := by
  intro p hp
  have hmem := h _ (.step hs hp)
  simpa [hne] using hmem

/-- Two nodes do not dominate each other, when one of them reaches the root. -/
theorem Dominates.antisymm (h : Dominates next root t s) (h' : Dominates next root s t)
    (hp : RootPath next root s p) : s = t := by
  by_contra hne
  -- A path from `s` passes `t` and then `s` again, and this tail is shorter.
  induction hlen : p.length using Nat.strong_induction_on generalizing p with
  | _ n ih =>
    obtain ⟨q, hq, -, -, hshort⟩ := hp.suffix (h p hp)
    obtain ⟨r, hr, -, hle, -⟩ := hq.suffix (h' q hq)
    have hlt := hshort (Ne.symm hne)
    exact ih r.length (by omega) hr rfl

/-- With paths from `s` around `t` and from `t` around `s`, a path that meets one of them can
be changed to avoid one of them. -/
theorem RootPath.detour {q r : List α} (hp : RootPath next root b p) (hmem : s ∈ p ∨ t ∈ p)
    (hq : RootPath next root s q) (htq : t ∉ q) (hr : RootPath next root t r) (hsr : s ∉ r) :
    ∃ p', RootPath next root b p' ∧ (t ∉ p' ∨ s ∉ p') := by
  induction hp with
  | last =>
    simp only [List.mem_singleton] at hmem
    rcases hmem with rfl | rfl
    · exact ⟨q, hq, .inl htq⟩
    · exact ⟨r, hr, .inr hsr⟩
  | @step b c p hs _ ih =>
    by_cases hsb : s = b
    · subst hsb
      exact ⟨q, hq, .inl htq⟩
    by_cases htb : t = b
    · subst htb
      exact ⟨r, hr, .inr hsr⟩
    simp only [List.mem_cons, hsb, htb, false_or] at hmem
    obtain ⟨p', hp', havoid⟩ := ih hmem
    refine ⟨b :: p', .step hs hp', ?_⟩
    simpa [hsb, htb] using havoid

/-- Of two dominators of a node that reaches the root, one dominates the other. -/
theorem Dominates.total (hs : Dominates next root s b) (ht : Dominates next root t b)
    (hp : RootPath next root b p) : Dominates next root t s ∨ Dominates next root s t := by
  by_contra hboth
  simp only [Dominates, not_or, not_forall] at hboth
  obtain ⟨⟨q, hq, htq⟩, r, hr, hsr⟩ := hboth
  obtain ⟨p', hp', havoid | havoid⟩ := hp.detour (.inl (hs p hp)) hq htq hr hsr
  · exact havoid (ht p' hp')
  · exact havoid (hs p' hp')

end Order

/-! ### The iteration -/

section Iteration

variable [DecidableEq α] {nodes : Finset α} {order : List α} {S : α → Finset α} {b d h : α}

/-- What the sets of the next nodes leave for `b`, and `b` itself. -/
def meet (nodes : Finset α) (next : α → Finset α) (S : α → Finset α) (b : α) : Finset α :=
  insert b (nodes.filter fun d => ∀ s ∈ next b, d ∈ S s)

/-- One node of a pass; the flag says whether a set has changed in the pass. -/
def visit (nodes : Finset α) (next : α → Finset α) (pass : Bool × (α → Finset α)) (b : α) :
    Bool × (α → Finset α) :=
  let T := meet nodes next pass.2 b
  if T = pass.2 b then pass else (true, Function.update pass.2 b T)

def sweep (nodes : Finset α) (next : α → Finset α) (order : List α) (S : α → Finset α) :
    Bool × (α → Finset α) :=
  order.foldl (visit nodes next) (false, S)

/-- Passes until one changes nothing. -/
def iterate (nodes : Finset α) (next : α → Finset α) (order : List α) :
    (fuel : Nat) → (α → Finset α) → Option (α → Finset α)
  | 0, _ => none
  | fuel + 1, S =>
    let pass := sweep nodes next order S
    if pass.1 then iterate nodes next order fuel pass.2 else some pass.2

theorem mem_meet :
    d ∈ meet nodes next S b ↔ d = b ∨ (d ∈ nodes ∧ ∀ s ∈ next b, d ∈ S s) := by
  simp [meet]

/-- `order` lists the nodes but the root, and edges stay inside. -/
structure Ordered (nodes : Finset α) (next : α → Finset α) (root : α) (order : List α) : Prop where
  root_mem : root ∈ nodes
  mem : ∀ b, b ∈ order ↔ b ∈ nodes ∧ b ≠ root
  closed : ∀ b ∈ order, next b ⊆ nodes

/-- Candidates: sets of nodes with all dominators that the iteration can only make smaller. -/
structure Candidates (nodes : Finset α) (next : α → Finset α) (root : α) (order : List α)
    (S : α → Finset α) : Prop where
  at_root : S root = {root}
  inside : ∀ b ∈ order, S b ⊆ nodes
  shrinks : ∀ b ∈ order, meet nodes next S b ⊆ S b
  covers : ∀ b ∈ nodes, ∀ d ∈ nodes, Dominates next root d b → d ∈ S b

theorem meet_mono {S' : α → Finset α} (hS : ∀ b, S' b ⊆ S b) (b : α) :
    meet nodes next S' b ⊆ meet nodes next S b := by
  intro d hd
  simp only [mem_meet] at hd ⊢
  exact hd.imp_right fun hd => ⟨hd.1, fun s hs => hS s (hd.2 s hs)⟩

/-- At first every node but the root has all nodes. -/
theorem candidates_init (hord : Ordered nodes next root order) :
    Candidates nodes next root order fun b => if b = root then {root} else nodes := by
  constructor
  · simp
  · intro b hb
    simp [((hord.mem b).mp hb).2]
  · intro b hb d hd
    have hbn := (hord.mem b).mp hb
    simp only [hbn.2, if_false]
    rcases mem_meet.mp hd with rfl | hd
    · exact hbn.1
    · exact hd.1
  · intro b _ d hd hdom
    split
    · rename_i heq
      subst heq
      simpa using hdom [b] .last
    · exact hd

/-- One node of a pass keeps the candidates, and makes the sets smaller when it changes one. -/
theorem Candidates.visit (hS : Candidates nodes next root order S)
    (hord : Ordered nodes next root order) (hb : b ∈ order) :
    Candidates nodes next root order (Function.update S b (meet nodes next S b)) := by
  have hbn := (hord.mem b).mp hb
  have hle : ∀ c, Function.update S b (meet nodes next S b) c ⊆ S c := by
    intro c
    rcases eq_or_ne c b with rfl | hne
    · simpa using hS.shrinks c hb
    · simp [hne]
  constructor
  · simpa [Ne.symm hbn.2] using hS.at_root
  · intro c hc
    exact (hle c).trans (hS.inside c hc)
  · intro c hc
    apply (meet_mono hle c).trans
    rcases eq_or_ne c b with rfl | hne
    · simp
    · simpa [hne] using hS.shrinks c hc
  · intro c hc d hd hdom
    rcases eq_or_ne c b with rfl | hne
    · simp only [Function.update_self, mem_meet]
      by_cases hdc : d = c
      · exact .inl hdc
      · exact .inr ⟨hd, fun s hs => hS.covers s (hord.closed c hb hs) d hd (hdom.of_edge hdc hs)⟩
    · simpa [hne] using hS.covers c hc d hd hdom

/-- How much a pass can still take away. -/
def total (order : List α) (S : α → Finset α) : Nat := ∑ b ∈ order.toFinset, (S b).card

theorem Candidates.total_visit (hS : Candidates nodes next root order S) (hb : b ∈ order)
    (hne : meet nodes next S b ≠ S b) :
    total order (Function.update S b (meet nodes next S b)) < total order S := by
  apply Finset.sum_lt_sum
  · intro c hc
    apply Finset.card_le_card
    rcases eq_or_ne c b with rfl | hcb
    · simpa using hS.shrinks c hb
    · simp [hcb]
  · refine ⟨b, by simpa using hb, ?_⟩
    simpa using Finset.card_lt_card ((hS.shrinks b hb).ssubset_of_ne hne)

/-- The flag stays up. -/
theorem visits_up (l : List α) (pass : Bool × (α → Finset α)) (hpass : pass.1 = true) :
    (l.foldl (Lib.visit nodes next) pass).1 = true := by
  induction l generalizing pass with
  | nil => exact hpass
  | cons c l ih =>
    apply ih
    unfold Lib.visit
    dsimp only
    split
    · exact hpass
    · rfl

/-- A part of a pass keeps the candidates. With the flag up it has made them smaller, and
without it all sets it has looked at are right. -/
theorem Candidates.visits (hord : Ordered nodes next root order) {l : List α} (hl : l ⊆ order)
    (pass : Bool × (α → Finset α)) (hS : Candidates nodes next root order pass.2) :
    Candidates nodes next root order (l.foldl (Lib.visit nodes next) pass).2 ∧
      total order (l.foldl (Lib.visit nodes next) pass).2 ≤ total order pass.2 ∧
      ((l.foldl (Lib.visit nodes next) pass).1 = true →
        pass.1 = true ∨ total order (l.foldl (Lib.visit nodes next) pass).2 < total order pass.2) ∧
      ((l.foldl (Lib.visit nodes next) pass).1 = false →
        (l.foldl (Lib.visit nodes next) pass).2 = pass.2 ∧
          ∀ b ∈ l, meet nodes next pass.2 b = pass.2 b) := by
  induction l generalizing pass with
  | nil => exact ⟨hS, le_rfl, .inl, fun _ => ⟨rfl, by simp⟩⟩
  | cons b l ih =>
    have hb : b ∈ order := hl List.mem_cons_self
    have hrest : l ⊆ order := List.Subset.trans (List.subset_cons_self b l) hl
    simp only [List.foldl_cons]
    by_cases hsame : meet nodes next pass.2 b = pass.2 b
    · have hvisit : Lib.visit nodes next pass b = pass := by simp [Lib.visit, hsame]
      simp only [hvisit]
      obtain ⟨hcand, hle, hup, hdown⟩ := ih hrest pass hS
      refine ⟨hcand, hle, hup, fun hflag => ⟨(hdown hflag).1, ?_⟩⟩
      simpa [hsame] using (hdown hflag).2
    · have hvisit : Lib.visit nodes next pass b =
          (true, Function.update pass.2 b (meet nodes next pass.2 b)) := by
        simp [Lib.visit, hsame]
      simp only [hvisit]
      have hlt := hS.total_visit hb hsame
      obtain ⟨hcand, hle, -, hdown⟩ :=
        ih hrest (true, Function.update pass.2 b (meet nodes next pass.2 b)) (hS.visit hord hb)
      refine ⟨hcand, hle.trans hlt.le, fun _ => .inr (hle.trans_lt hlt), fun hflag => ?_⟩
      rw [visits_up l _ rfl] at hflag
      cases hflag

/-- The sets of the dominators of all nodes. -/
def Exact (nodes : Finset α) (next : α → Finset α) (root : α) (S : α → Finset α) : Prop :=
  ∀ b ∈ nodes, ∀ d, d ∈ S b ↔ d ∈ nodes ∧ Dominates next root d b

/-- The sets are right for the nodes that reach the root. -/
def ExactReaching (nodes : Finset α) (next : α → Finset α) (root : α) (S : α → Finset α) : Prop :=
  ∀ b ∈ nodes, (∃ p, RootPath next root b p) → ∀ d, d ∈ S b ↔ d ∈ nodes ∧ Dominates next root d b

omit [DecidableEq α] in
theorem Exact.reaching (hS : Exact nodes next root S) : ExactReaching nodes next root S :=
  fun b hb _ => hS b hb

/-- Candidates that no node changes are the sets of the dominators. -/
theorem Candidates.exact (hS : Candidates nodes next root order S)
    (hord : Ordered nodes next root order)
    (hfixed : ∀ b ∈ order, meet nodes next S b = S b) : Exact nodes next root S := by
  have hsound : ∀ b p, RootPath next root b p → b ∈ nodes → ∀ d ∈ S b, d ∈ p := by
    intro b p hp
    induction hp with
    | last =>
      intro _ d hd
      simpa [hS.at_root] using hd
    | @step b s p hs _ ih =>
      intro hb d hd
      by_cases hroot : b = root
      · subst hroot
        rw [hS.at_root, Finset.mem_singleton] at hd
        simp [hd]
      · have hbo : b ∈ order := (hord.mem b).mpr ⟨hb, hroot⟩
        rw [← hfixed b hbo, mem_meet] at hd
        rcases hd with rfl | ⟨-, hd⟩
        · exact List.mem_cons_self
        · exact List.mem_cons_of_mem _ (ih (hord.closed b hbo hs) d (hd s hs))
  intro b hb d
  constructor
  · intro hd
    refine ⟨?_, fun p hp => hsound b p hp hb d hd⟩
    by_cases hroot : b = root
    · subst hroot
      rw [hS.at_root, Finset.mem_singleton] at hd
      exact hd ▸ hb
    · exact hS.inside b ((hord.mem b).mpr ⟨hb, hroot⟩) hd
  · rintro ⟨hd, hdom⟩
    exact hS.covers b hb d hd hdom

/-- The iteration ends with the sets of the dominators. -/
theorem Candidates.iterate (hord : Ordered nodes next root order) {fuel : Nat}
    (hS : Candidates nodes next root order S) (hfuel : total order S < fuel) :
    ∃ S', Lib.iterate nodes next order fuel S = some S' ∧ Exact nodes next root S' := by
  induction fuel generalizing S with
  | zero => omega
  | succ fuel ih =>
    obtain ⟨hcand, -, hup, hdown⟩ :=
      Candidates.visits hord (List.Subset.refl order) (false, S) hS
    simp only [Lib.iterate]
    cases hflag : (sweep nodes next order S).1 with
    | true =>
      simp only [if_true]
      apply ih hcand
      have hlt := (hup hflag).resolve_left (by simp)
      simp only at hlt
      omega
    | false =>
      obtain ⟨hsame, hfixed⟩ := hdown hflag
      have hsweep : (sweep nodes next order S).2 = S := hsame
      simp only [hsweep]
      exact ⟨S, by simp, hS.exact hord hfixed⟩

end Iteration

/-! ### The closest dominator -/

section Closest

variable [DecidableEq α] {nodes : Finset α} {dom : α → Finset α} {order : List α}
  {strict left : Finset α} {b m s : α} {p : List α}

/-- What a node leaves of the strict dominators that are left. -/
def prune (dom : α → Finset α) (left : Finset α) (s : α) : Finset α :=
  if s ∈ left then left.filter fun t => t = s ∨ t ∉ dom s else left

/-- The strict dominators that dominate no other one. -/
def closest (dom : α → Finset α) (order : List α) (strict : Finset α) : Finset α :=
  order.foldl (prune dom) strict

theorem prune_subset : prune dom left s ⊆ left := by
  unfold prune
  split
  · exact Finset.filter_subset _ _
  · exact Finset.Subset.refl _

theorem prune_nonempty (h : left.Nonempty) : (prune dom left s).Nonempty := by
  unfold prune
  split
  · rename_i hs
    exact ⟨s, Finset.mem_filter.mpr ⟨hs, .inl rfl⟩⟩
  · exact h

/-- Pruning leaves something of what is not empty. -/
theorem closest_nonempty (h : strict.Nonempty) : (closest dom order strict).Nonempty := by
  unfold closest
  induction order generalizing strict with
  | nil => exact h
  | cons s order ih => exact ih (prune_nonempty h)

theorem closest_subset : closest dom order strict ⊆ strict := by
  unfold closest
  induction order generalizing strict with
  | nil => exact Finset.Subset.refl _
  | cons s order ih => exact ih.trans prune_subset

/-- The node that all others dominate stays. -/
theorem mem_prune (hfirst : ∀ t ∈ left, t ≠ m → t ∈ dom m ∧ m ∉ dom t) (hm : m ∈ left) :
    m ∈ prune dom left s := by
  unfold prune
  split
  · rename_i hs
    refine Finset.mem_filter.mpr ⟨hm, ?_⟩
    by_cases hsm : s = m
    · exact .inl hsm.symm
    · exact .inr (hfirst s hs hsm).2
  · exact hm

/-- The turn of that node leaves only itself. -/
theorem prune_first (hfirst : ∀ t ∈ left, t ≠ m → t ∈ dom m ∧ m ∉ dom t) (hm : m ∈ left) :
    prune dom left m = {m} := by
  apply Finset.Subset.antisymm
  · intro t ht
    rw [prune, if_pos hm, Finset.mem_filter] at ht
    by_contra hne
    rw [Finset.mem_singleton] at hne
    exact (ht.2.resolve_left hne) (hfirst t ht.1 hne).1
  · exact Finset.singleton_subset_iff.mpr (mem_prune hfirst hm)

/-- Pruning leaves the strict dominator that all others dominate. -/
theorem closest_eq (hfirst : ∀ t ∈ strict, t ≠ m → t ∈ dom m ∧ m ∉ dom t) (hm : m ∈ strict)
    (horder : m ∈ order ∨ strict = {m}) : closest dom order strict = {m} := by
  unfold closest
  induction order generalizing strict with
  | nil => exact horder.resolve_left List.not_mem_nil
  | cons s order ih =>
    rw [List.foldl_cons]
    apply ih (fun t ht => hfirst t (prune_subset ht)) (mem_prune hfirst hm)
    by_cases hsm : s = m
    · right
      rw [hsm]
      exact prune_first hfirst hm
    · apply horder.imp
      · intro hin
        exact (List.mem_cons.mp hin).resolve_left (Ne.symm hsm)
      · rintro rfl
        apply Finset.Subset.antisymm prune_subset
        exact Finset.singleton_subset_iff.mpr (mem_prune hfirst hm)

/-- A node that reaches the root, other than the root, has one closest strict dominator, and
pruning finds it. -/
theorem ExactReaching.closest (hdom : ExactReaching nodes next root dom) (hb : b ∈ nodes)
    (hroot : root ∈ nodes) (hne : b ≠ root) (hp : RootPath next root b p)
    (horder : ∀ c ∈ nodes, c ∈ order) :
    ∃ m ∈ nodes, Lib.closest dom order ((dom b).erase b) = {m} ∧ m ≠ b ∧
      Dominates next root m b ∧
      ∀ t ∈ nodes, t ≠ b → Dominates next root t b → Dominates next root t m := by
  have hstrict : ∀ t, t ∈ (dom b).erase b ↔ t ≠ b ∧ t ∈ nodes ∧ Dominates next root t b := by
    intro t
    rw [Finset.mem_erase, hdom b hb ⟨p, hp⟩]
  -- The closest one is the one with the most dominators.
  obtain ⟨m, hm, hmax⟩ := Finset.exists_max_image ((dom b).erase b) (fun s => (dom s).card)
    ⟨root, (hstrict root).mpr ⟨Ne.symm hne, hroot, root_dominates b⟩⟩
  obtain ⟨hmb, hmn, hmdom⟩ := (hstrict m).mp hm
  obtain ⟨r, hr, -⟩ := hp.suffix (hmdom p hp)
  have hmexact := hdom m hmn ⟨r, hr⟩
  have hfirst : ∀ t ∈ (dom b).erase b, t ≠ m → t ∈ dom m ∧ m ∉ dom t := by
    intro t ht htm
    obtain ⟨-, htn, htdom⟩ := (hstrict t).mp ht
    obtain ⟨q, hq, -⟩ := hp.suffix (htdom p hp)
    have htexact := hdom t htn ⟨q, hq⟩
    have hnot : ¬ Dominates next root m t := by
      intro hmt
      have hlt : (dom m).card < (dom t).card := by
        apply Finset.card_lt_card
        rw [Finset.ssubset_iff_of_subset]
        · refine ⟨t, (htexact t).mpr ⟨htn, dominates_self _⟩, fun htm' => htm ?_⟩
          exact Dominates.antisymm hmt ((hmexact t).mp htm').2 hq
        · intro d hd
          obtain ⟨hdn, hdm⟩ := (hmexact d).mp hd
          exact (htexact d).mpr ⟨hdn, hmt.trans hdm⟩
      exact absurd (hmax t ht) (by omega)
    refine ⟨(hmexact t).mpr ⟨htn, ?_⟩, fun hmt => hnot ((htexact m).mp hmt).2⟩
    exact (hmdom.total htdom hp).resolve_right hnot
  refine ⟨m, hmn, closest_eq hfirst hm (.inl (horder m hmn)), hmb, hmdom, ?_⟩
  intro t htn htb htdom
  by_cases htm : t = m
  · subst htm
    exact dominates_self _
  · exact ((hmexact t).mp (hfirst t ((hstrict t).mpr ⟨htb, htn, htdom⟩) htm).1).2

end Closest

end Lib
