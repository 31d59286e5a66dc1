import FlashGpuSim.Cluster.KernelWalk
import FlashGpuSim.Lib.Outcome
import FlashGpuSim.Lib.SearchTree

/-!
The streams that the CTAs of a parent kernel make, `m_cta_streams` of `kernel_info_t`. The map is
a search tree under `dim3comp`, which is an order only for CTA ids that grow in all components
together: for these the streams of the CTAs are kept apart, whatever the shape of the tree.
-/

namespace FlashGpuSim

open Lib

/-- `dim3comp` -/
def dim3comp (a b : Dim3) : Bool :=
  if a.z < b.z then true
  else if a.y < b.y then true
  else if a.x < b.x then true
  else false

inductive CtaStreamFault
  | noDefault
  | notFound
  deriving DecidableEq, Repr

/-- The streams of a parent kernel. `made` is their history, which the code does not keep: each
new stream is handed to the stream manager. -/
structure CtaStreams where
  ctaStreams : SearchTree Dim3 (List Nat)
  made : List (Dim3 × Nat)
  deriving DecidableEq, Repr

inductive CtaStreamCall
  | getDefaultStreamCta (ctaid : Dim3)
  | createStreamCta (ctaid : Dim3)
  | ctaHasStream (ctaid : Dim3) (stream : Nat)

def CtaStreamCall.ctaid : CtaStreamCall → Dim3
  | getDefaultStreamCta ctaid | createStreamCta ctaid | ctaHasStream ctaid _ => ctaid

namespace CtaStreams

def init : CtaStreams := ⟨.leaf, []⟩

section calls

-- how the tree changes its shape after an insertion
variable (rebalance : SearchTree Dim3 (List Nat) → SearchTree Dim3 (List Nat))

/-- `operator[]`, which makes the entry of a CTA that has none. -/
def index (k : CtaStreams) (ctaid : Dim3) : CtaStreams :=
  match k.ctaStreams.find dim3comp ctaid with
  | some _ => k
  | none => { k with ctaStreams := rebalance (k.ctaStreams.insert dim3comp ctaid []) }

/-- The entry that `operator[]` returns changes. -/
def update (k : CtaStreams) (ctaid : Dim3) (f : List Nat → List Nat) : CtaStreams :=
  let k := k.index rebalance ctaid
  { k with ctaStreams := k.ctaStreams.modify dim3comp ctaid f }

/-- `new CUstream_st()`, with the number of the stream for its address. -/
def newStream (k : CtaStreams) (ctaid : Dim3) : Nat × CtaStreams :=
  (k.made.length, { k with made := k.made ++ [(ctaid, k.made.length)] })

def getDefaultStreamCta (k : CtaStreams) (ctaid : Dim3) : Except CtaStreamFault (Nat × CtaStreams) :=
  match k.ctaStreams.find dim3comp ctaid with
  | some [] => .error .noDefault
  | some (stream :: _) => .ok (stream, k)
  | none =>
    let k := k.update rebalance ctaid fun _ => []
    let (stream, k) := k.newStream ctaid
    .ok (stream, k.update rebalance ctaid (· ++ [stream]))

def createStreamCta (k : CtaStreams) (ctaid : Dim3) : Except CtaStreamFault (Nat × CtaStreams) := do
  let (_, k) ← k.getDefaultStreamCta rebalance ctaid
  let (stream, k) := k.newStream ctaid
  match k.ctaStreams.find dim3comp ctaid with
  | none => .error .notFound
  | some [] => .error .noDefault
  | some _ => .ok (stream, k.update rebalance ctaid (· ++ [stream]))

def ctaHasStream (k : CtaStreams) (ctaid : Dim3) (stream : Nat) : Bool :=
  match k.ctaStreams.find dim3comp ctaid with
  | none => false
  | some streams => streams.contains stream

def step (k : CtaStreams) : CtaStreamCall → Except CtaStreamFault CtaStreams
  | .getDefaultStreamCta ctaid => return (← k.getDefaultStreamCta rebalance ctaid).2
  | .createStreamCta ctaid => return (← k.createStreamCta rebalance ctaid).2
  | .ctaHasStream _ _ => .ok k

def run (k : CtaStreams) (calls : List CtaStreamCall) : Except CtaStreamFault CtaStreams :=
  calls.foldlM (step rebalance) k

/-- The streams of the CTAs `ids` are kept apart from `k` on: a CTA has one default stream for
ever, no stream belongs to two CTAs, and a CTA has the streams that were made for it. -/
structure Apart (ids : Set Dim3) (k : CtaStreams) : Prop where
  default : ∀ ctaid ∈ ids, ∃ stream k', k.getDefaultStreamCta rebalance ctaid = .ok (stream, k') ∧
    ∀ calls : List CtaStreamCall, (∀ call ∈ calls, call.ctaid ∈ ids) →
      ∃ k₁ k₂, k'.run rebalance calls = .ok k₁ ∧
        k₁.getDefaultStreamCta rebalance ctaid = .ok (stream, k₂)
  create : ∀ ctaid ∈ ids, ∃ stream k', k.createStreamCta rebalance ctaid = .ok (stream, k') ∧
    (ctaid, stream) ∈ k'.made ∧ ∀ id, (id, stream) ∉ k.made
  different : ∀ id id' stream, (id, stream) ∈ k.made → (id', stream) ∈ k.made → id = id'
  has : ∀ ctaid ∈ ids, ∀ stream, k.ctaHasStream ctaid stream = true ↔ (ctaid, stream) ∈ k.made

end calls

end CtaStreams

/-! ### The order of the ids -/

/-- No component is smaller. -/
def Dim3.Le (a b : Dim3) : Prop := a.x ≤ b.x ∧ a.y ≤ b.y ∧ a.z ≤ b.z

theorem dim3comp_eq_false {a b : Dim3} : dim3comp a b = false ↔ b.Le a := by
  unfold dim3comp Dim3.Le
  split
  · simp
    omega
  · split
    · simp
      omega
    · split
      · simp
        omega
      · simp
        omega

theorem Dim3.Le.antisymm {a b : Dim3} (h : a.Le b) (h' : b.Le a) : a = b := by
  obtain ⟨x, y, z⟩ := a
  obtain ⟨x', y', z'⟩ := b
  obtain ⟨hx, hy, hz⟩ := h
  obtain ⟨hx', hy', hz'⟩ := h'
  rw [Dim3.mk.injEq]
  exact ⟨le_antisymm hx hx', le_antisymm hy hy', le_antisymm hz hz'⟩

theorem Dim3.Le.trans {a b c : Dim3} (h : a.Le b) (h' : b.Le c) : a.Le c :=
  ⟨h.1.trans h'.1, h.2.1.trans h'.2.1, h.2.2.trans h'.2.2⟩

theorem Dim3.Le.refl (a : Dim3) : a.Le a := ⟨le_rfl, le_rfl, le_rfl⟩

/-- `dim3comp` is an order exactly for ids that grow in all components together. -/
theorem strictTotalOn_iff {ids : Set Dim3} :
    StrictTotalOn dim3comp ids ↔ IsChain Dim3.Le ids := by
  constructor
  · intro h a ha b hb _
    cases hab : dim3comp a b with
    | true => exact .inl (dim3comp_eq_false.mp (h.asymm a ha b hb hab))
    | false => exact .inr (dim3comp_eq_false.mp hab)
  · intro h
    have hle : ∀ a ∈ ids, ∀ b ∈ ids, a.Le b ∨ b.Le a := by
      intro a ha b hb
      rcases eq_or_ne a b with rfl | hne
      · exact .inl (.refl a)
      · exact h ha hb hne
    have hlt : ∀ {a b}, dim3comp a b = true → ¬ b.Le a := by
      intro a b hab hba
      rw [dim3comp_eq_false.mpr hba] at hab
      cases hab
    refine ⟨fun a _ => dim3comp_eq_false.mpr (.refl a), fun a ha b hb hab => ?_,
      fun a ha b hb c hc hab hbc => ?_, fun a ha b hb hab hba => ?_⟩
    · exact dim3comp_eq_false.mpr ((hle a ha b hb).resolve_right (hlt hab))
    · by_contra hac
      rw [Bool.not_eq_true] at hac
      have hca := dim3comp_eq_false.mp hac
      exact hlt hbc (hca.trans ((hle a ha b hb).resolve_right (hlt hab)))
    · exact (dim3comp_eq_false.mp hba).antisymm (dim3comp_eq_false.mp hab)

/-! ### The streams of a chain of ids -/

namespace CtaStreams

/-- The streams that were made for a CTA. -/
def streamsOf (made : List (Dim3 × Nat)) (ctaid : Dim3) : List Nat :=
  (made.filter fun e => decide (e.1 = ctaid)).map Prod.snd

theorem mem_streamsOf {made : List (Dim3 × Nat)} {ctaid : Dim3} {stream : Nat} :
    stream ∈ streamsOf made ctaid ↔ (ctaid, stream) ∈ made := by
  unfold streamsOf
  simp only [List.mem_map, List.mem_filter, decide_eq_true_eq]
  constructor
  · rintro ⟨⟨id, s⟩, ⟨he, rfl⟩, rfl⟩
    exact he
  · exact fun he => ⟨_, ⟨he, rfl⟩, rfl⟩

theorem streamsOf_append (made more : List (Dim3 × Nat)) (ctaid : Dim3) :
    streamsOf (made ++ more) ctaid = streamsOf made ctaid ++ streamsOf more ctaid := by
  unfold streamsOf
  rw [List.filter_append, List.map_append]

theorem streamsOf_new (made : List (Dim3 × Nat)) (id ctaid : Dim3) (stream : Nat) :
    streamsOf (made ++ [(id, stream)]) ctaid =
      if ctaid = id then streamsOf made ctaid ++ [stream] else streamsOf made ctaid := by
  rw [streamsOf_append]
  unfold streamsOf
  split
  · rename_i heq
    simp [heq]
  · rename_i hne
    simp [Ne.symm hne]

/-- A change of shape keeps the entries in their order. -/
def KeepsEntries (rebalance : SearchTree Dim3 (List Nat) → SearchTree Dim3 (List Nat)) : Prop :=
  ∀ t, (rebalance t).entries = t.entries

/-- The tree is that of a map, and each CTA with an entry has the streams made for it. -/
structure Sound (ids : Set Dim3) (k : CtaStreams) : Prop where
  ordered : k.ctaStreams.Ordered dim3comp ids
  lists : ∀ ctaid ∈ ids, k.ctaStreams.find dim3comp ctaid =
    if streamsOf k.made ctaid = [] then none else some (streamsOf k.made ctaid)
  numbered : ∀ e ∈ k.made, e.2 < k.made.length
  nodup : (k.made.map Prod.snd).Nodup

theorem sound_init (ids : Set Dim3) : init.Sound ids where
  ordered := SearchTree.ordered_leaf
  lists _ _ := rfl
  numbered _ he := nomatch he
  nodup := .nil

section chain

variable {rebalance : SearchTree Dim3 (List Nat) → SearchTree Dim3 (List Nat)} {ids : Set Dim3}
  {k : CtaStreams} {ctaid : Dim3}

theorem ordered_congr {t t' : SearchTree Dim3 (List Nat)} (h : t.Ordered dim3comp ids)
    (heq : t'.entries = t.entries) : t'.Ordered dim3comp ids :=
  ⟨heq ▸ h.mem, heq ▸ h.sorted⟩

theorem index_spec (hkeeps : KeepsEntries rebalance) (hord : StrictTotalOn dim3comp ids)
    (h : k.ctaStreams.Ordered dim3comp ids) (hc : ctaid ∈ ids) :
    (k.index rebalance ctaid).ctaStreams.Ordered dim3comp ids ∧
      ∀ id ∈ ids, (k.index rebalance ctaid).ctaStreams.find dim3comp id =
        if id = ctaid then some ((k.ctaStreams.find dim3comp ctaid).getD [])
        else k.ctaStreams.find dim3comp id := by
  unfold index
  split
  · rename_i streams hfind
    refine ⟨h, fun id hid => ?_⟩
    split
    · rename_i heq
      rw [heq, hfind, Option.getD_some]
    · rfl
  · rename_i hfind
    have hnew : ∀ e ∈ k.ctaStreams.entries, e.1 ≠ ctaid := by
      rintro ⟨id, streams⟩ he rfl
      rw [(SearchTree.find_eq_some_iff hord h hc).mpr he] at hfind
      cases hfind
    have hins := SearchTree.ordered_insert (v := []) hord h hc hnew
    have hreb := ordered_congr hins (hkeeps _)
    refine ⟨hreb, fun id hid => ?_⟩
    rw [SearchTree.find_congr hord hins hreb hid fun v => by rw [hkeeps],
      SearchTree.find_insert hord h hc hnew hid, hfind]
    rfl

theorem update_made (k : CtaStreams) (ctaid : Dim3) (f : List Nat → List Nat) :
    (k.update rebalance ctaid f).made = k.made := by
  show (k.index rebalance ctaid).made = k.made
  unfold index
  split <;> rfl

theorem update_spec (hkeeps : KeepsEntries rebalance) (hord : StrictTotalOn dim3comp ids)
    (h : k.ctaStreams.Ordered dim3comp ids) (hc : ctaid ∈ ids) (f : List Nat → List Nat) :
    (k.update rebalance ctaid f).ctaStreams.Ordered dim3comp ids ∧
      ∀ id ∈ ids, (k.update rebalance ctaid f).ctaStreams.find dim3comp id =
        if id = ctaid then some (f ((k.ctaStreams.find dim3comp ctaid).getD []))
        else k.ctaStreams.find dim3comp id := by
  obtain ⟨hindex, hfind⟩ := index_spec hkeeps hord h hc
  refine ⟨SearchTree.ordered_modify hord hindex hc, fun id hid => ?_⟩
  refine (SearchTree.find_modify hord hindex hc hid).trans ?_
  rw [hfind id hid]
  split <;> rfl

/-- A new stream of a CTA is appended to its list. -/
theorem Sound.append (hkeeps : KeepsEntries rebalance) (hord : StrictTotalOn dim3comp ids)
    {k' : CtaStreams} (h : k.Sound ids) (hc : ctaid ∈ ids)
    (hordered : k'.ctaStreams.Ordered dim3comp ids)
    (hmade : k'.made = k.made ++ [(ctaid, k.made.length)])
    (hfind : ∀ id ∈ ids, (k'.ctaStreams.find dim3comp id).getD [] =
      (k.ctaStreams.find dim3comp id).getD [] ∧
        (id ≠ ctaid → k'.ctaStreams.find dim3comp id = k.ctaStreams.find dim3comp id)) :
    (k'.update rebalance ctaid (· ++ [k.made.length])).Sound ids := by
  obtain ⟨hupdate, hlookup⟩ := update_spec hkeeps hord hordered hc (· ++ [k.made.length])
  have hsame : (k'.update rebalance ctaid (· ++ [k.made.length])).made = k'.made :=
    update_made _ _ _
  have hgetD : (k.ctaStreams.find dim3comp ctaid).getD [] = streamsOf k.made ctaid := by
    rw [h.lists ctaid hc]
    split
    · rename_i hnil
      rw [hnil]
      rfl
    · rfl
  refine ⟨hupdate, fun id hid => ?_, fun e he => ?_, ?_⟩
  · rw [hlookup id hid, hsame, hmade, streamsOf_new]
    split
    · rename_i heq
      rw [(hfind ctaid hc).1, hgetD, heq, if_neg (by simp)]
    · rename_i hne
      rw [(hfind id hid).2 hne, h.lists id hid]
  · rw [hsame, hmade] at he ⊢
    rw [List.length_append, List.length_singleton]
    rcases List.mem_append.mp he with he | he
    · exact Nat.lt_succ_of_lt (h.numbered e he)
    · rw [List.mem_singleton.mp he]
      exact Nat.lt_succ_self _
  · rw [hsame, hmade, List.map_append, List.nodup_append]
    refine ⟨h.nodup, List.nodup_singleton _, fun s hs s' hs' => ?_⟩
    obtain ⟨e, he, rfl⟩ := List.mem_map.mp hs
    rw [List.mem_singleton.mp hs']
    exact (h.numbered e he).ne

theorem getDefault_spec (hkeeps : KeepsEntries rebalance) (hord : StrictTotalOn dim3comp ids)
    (h : k.Sound ids) (hc : ctaid ∈ ids) :
    ∃ stream k', k.getDefaultStreamCta rebalance ctaid = .ok (stream, k') ∧ k'.Sound ids ∧
      k.made <+: k'.made ∧ (streamsOf k'.made ctaid).head? = some stream := by
  have hlist := h.lists ctaid hc
  unfold getDefaultStreamCta
  split
  · rename_i hfind
    rw [hfind] at hlist
    split at hlist
    · cases hlist
    · rename_i hne
      exact absurd (Option.some.inj hlist).symm hne
  · rename_i stream rest hfind
    rw [hfind] at hlist
    split at hlist
    · cases hlist
    · refine ⟨stream, k, rfl, h, List.prefix_rfl, ?_⟩
      rw [← Option.some.inj hlist]
      rfl
  · rename_i hfind
    have hnil : streamsOf k.made ctaid = [] := by
      by_contra hne
      rw [hfind, if_neg hne] at hlist
      cases hlist
    obtain ⟨hupdate, hlookup⟩ := update_spec hkeeps hord h.ordered hc fun _ => []
    have hsame : (k.update rebalance ctaid fun _ => []).made = k.made := update_made _ _ _
    generalize k.update rebalance ctaid (fun _ => []) = k₁ at *
    have hmade : (k₁.newStream ctaid).2.made = k.made ++ [(ctaid, k.made.length)] := by
      show k₁.made ++ [(ctaid, k₁.made.length)] = _
      rw [hsame]
    refine ⟨k₁.made.length, (k₁.newStream ctaid).2.update rebalance ctaid
      (· ++ [k₁.made.length]), rfl, ?_, ?_, ?_⟩
    · rw [hsame]
      refine h.append hkeeps hord hc hupdate hmade fun id hid => ?_
      refine ⟨?_, fun hne => (hlookup id hid).trans (if_neg hne)⟩
      refine (congrArg (Option.getD · []) (hlookup id hid)).trans ?_
      split
      · rename_i heq
        rw [heq, hfind]
        rfl
      · rfl
    · rw [update_made]
      show k.made <+: k₁.made ++ _
      rw [hsame]
      exact List.prefix_append _ _
    · rw [update_made]
      show (streamsOf (k₁.made ++ _) ctaid).head? = _
      rw [hsame, streamsOf_new, if_pos rfl, hnil]
      rfl

theorem create_spec (hkeeps : KeepsEntries rebalance) (hord : StrictTotalOn dim3comp ids)
    (h : k.Sound ids) (hc : ctaid ∈ ids) :
    ∃ stream k', k.createStreamCta rebalance ctaid = .ok (stream, k') ∧ k'.Sound ids ∧
      k.made <+: k'.made ∧ (ctaid, stream) ∈ k'.made ∧ ∀ id, (id, stream) ∉ k.made := by
  obtain ⟨first, k₁, hget, hsound, hle, hhead⟩ := getDefault_spec hkeeps hord h hc
  obtain ⟨rest, hlist⟩ := List.head?_eq_some_iff.mp hhead
  have hfind : k₁.ctaStreams.find dim3comp ctaid = some (first :: rest) := by
    rw [hsound.lists ctaid hc, hlist]
    rfl
  have hsame : ((k₁.newStream ctaid).2.update rebalance ctaid (· ++ [k₁.made.length])).made =
      k₁.made ++ [(ctaid, k₁.made.length)] := update_made _ _ _
  refine ⟨k₁.made.length, (k₁.newStream ctaid).2.update rebalance ctaid (· ++ [k₁.made.length]),
    ?_, ?_, ?_, ?_, fun id hid => ?_⟩
  · show (k.getDefaultStreamCta rebalance ctaid >>= _) = _
    rw [hget]
    show (match k₁.ctaStreams.find dim3comp ctaid with
      | none => _ | some [] => _ | some _ => _) = _
    rw [hfind]
    rfl
  · exact hsound.append hkeeps hord hc hsound.ordered rfl fun id hid => ⟨rfl, fun _ => rfl⟩
  · rw [hsame]
    exact hle.trans (List.prefix_append _ _)
  · rw [hsame]
    exact List.mem_append_right _ (List.mem_singleton.mpr rfl)
  · exact (hsound.numbered _ (hle.subset hid)).ne rfl

/-! ### Runs -/

theorem step_spec (hkeeps : KeepsEntries rebalance) (hord : StrictTotalOn dim3comp ids)
    (h : k.Sound ids) {call : CtaStreamCall} (hc : call.ctaid ∈ ids) :
    ∃ k', k.step rebalance call = .ok k' ∧ k'.Sound ids ∧ k.made <+: k'.made := by
  cases call with
  | getDefaultStreamCta ctaid =>
    obtain ⟨stream, k', hget, hsound, hle, -⟩ := getDefault_spec hkeeps hord h hc
    refine ⟨k', ?_, hsound, hle⟩
    exact congrArg (fun r : Except _ _ => r >>= fun a => pure a.2) hget
  | createStreamCta ctaid =>
    obtain ⟨stream, k', hcreate, hsound, hle, -⟩ := create_spec hkeeps hord h hc
    refine ⟨k', ?_, hsound, hle⟩
    exact congrArg (fun r : Except _ _ => r >>= fun a => pure a.2) hcreate
  | ctaHasStream ctaid stream => exact ⟨k, rfl, h, List.prefix_rfl⟩

theorem run_spec (hkeeps : KeepsEntries rebalance) (hord : StrictTotalOn dim3comp ids)
    {calls : List CtaStreamCall} (hcalls : ∀ call ∈ calls, call.ctaid ∈ ids) (h : k.Sound ids) :
    ∃ k', k.run rebalance calls = .ok k' ∧ k'.Sound ids ∧ k.made <+: k'.made := by
  induction calls generalizing k with
  | nil => exact ⟨k, rfl, h, List.prefix_rfl⟩
  | cons call calls ih =>
    obtain ⟨k₁, hstep, hsound₁, hle₁⟩ :=
      step_spec hkeeps hord h (hcalls call List.mem_cons_self)
    obtain ⟨k₂, hrun, hsound₂, hle₂⟩ :=
      ih (fun call hc => hcalls call (List.mem_cons_of_mem _ hc)) hsound₁
    refine ⟨k₂, ?_, hsound₂, hle₁.trans hle₂⟩
    show (call :: calls).foldlM (step rebalance) k = _
    rw [List.foldlM_cons, hstep]
    exact hrun

/-- The first stream of a CTA stays the first. -/
theorem head_streamsOf_mono {made made' : List (Dim3 × Nat)} (h : made <+: made')
    {stream : Nat} (hhead : (streamsOf made ctaid).head? = some stream) :
    (streamsOf made' ctaid).head? = some stream := by
  obtain ⟨more, rfl⟩ := h
  rw [streamsOf_append, List.head?_append, hhead]
  rfl

theorem getDefault_of_head? (hkeeps : KeepsEntries rebalance) (hord : StrictTotalOn dim3comp ids)
    (h : k.Sound ids) (hc : ctaid ∈ ids) {stream : Nat}
    (hhead : (streamsOf k.made ctaid).head? = some stream) :
    ∃ k', k.getDefaultStreamCta rebalance ctaid = .ok (stream, k') := by
  obtain ⟨stream', k', hget, -, hle, hhead'⟩ := getDefault_spec hkeeps hord h hc
  rw [head_streamsOf_mono hle hhead] at hhead'
  rw [Option.some.inj hhead']
  exact ⟨k', hget⟩

theorem Sound.apart (hkeeps : KeepsEntries rebalance) (hord : StrictTotalOn dim3comp ids)
    (h : k.Sound ids) : k.Apart rebalance ids where
  default ctaid hc := by
    obtain ⟨stream, k', hget, hsound, -, hhead⟩ := getDefault_spec hkeeps hord h hc
    refine ⟨stream, k', hget, fun calls hcalls => ?_⟩
    obtain ⟨k₁, hrun, hsound₁, hle⟩ := run_spec hkeeps hord hcalls hsound
    obtain ⟨k₂, hagain⟩ := getDefault_of_head? hkeeps hord hsound₁ hc
      (head_streamsOf_mono hle hhead)
    exact ⟨k₁, k₂, hrun, hagain⟩
  create ctaid hc := by
    obtain ⟨stream, k', hcreate, -, -, hmade, hnew⟩ := create_spec hkeeps hord h hc
    exact ⟨stream, k', hcreate, hmade, hnew⟩
  different id id' stream hid hid' := by
    have hinj := List.inj_on_of_nodup_map h.nodup hid hid' rfl
    exact congrArg Prod.fst hinj
  has ctaid hc stream := by
    rw [← mem_streamsOf]
    unfold ctaHasStream
    rw [h.lists ctaid hc]
    split
    · rename_i hnone
      split at hnone
      · rename_i hnil
        rw [hnil]
        simp
      · cases hnone
    · rename_i streams hsome
      split at hsome
      · cases hsome
      · rw [Option.some.inj hsome]
        exact List.contains_iff_mem

end chain

/-- Where two ids come before each other, the entry of the second is not found again. -/
theorem default_changes {a b : Dim3} (hab : dim3comp a b = true) (hba : dim3comp b a = true) :
    ∃ k k₁ k₂, init.run id [.getDefaultStreamCta a] = .ok k ∧
      k.getDefaultStreamCta id b = .ok (1, k₁) ∧ k₁.getDefaultStreamCta id b = .ok (2, k₂) := by
  have haa : dim3comp a a = false := dim3comp_eq_false.mpr (.refl a)
  have hfirst : init.run id [.getDefaultStreamCta a] =
      .ok ⟨.node .leaf a [0] .leaf, [(a, 0)]⟩ := by
    simp [run, step, init, getDefaultStreamCta, update, index, newStream, SearchTree.find,
      SearchTree.lowerBound, SearchTree.insert, SearchTree.modify, haa]
  have hlost : ∀ left made, getDefaultStreamCta id ⟨.node left a [0] .leaf, made⟩ b =
      .ok (made.length, ⟨.node ((left.insert dim3comp b []).insert dim3comp b []) a [0] .leaf,
        made ++ [(b, made.length)]⟩) := by
    intro left made
    simp [getDefaultStreamCta, update, index, newStream, SearchTree.find, SearchTree.lowerBound,
      SearchTree.insert, SearchTree.modify, hab, hba]
  exact ⟨_, _, _, hfirst, hlost .leaf [(a, 0)], hlost _ [(a, 0), (b, 1)]⟩

/-- In every run over the ids, and for every shape of the tree, their streams are kept apart. -/
def KeptApart (ids : Set Dim3) : Prop :=
  ∀ rebalance, KeepsEntries rebalance → ∀ calls : List CtaStreamCall,
    (∀ call ∈ calls, call.ctaid ∈ ids) →
      ∃ k, init.run rebalance calls = .ok k ∧ k.Apart rebalance ids

end CtaStreams

end FlashGpuSim
