import Mathlib.Data.Finset.Max
import FlashGpuSim.Lib.Reach
import FlashGpuSim.Prefetch.StreamBuffer

/-!
Over every run of the stream buffer a valid stream holds exactly the lines after its last
demand, and what is in flight is what was sent and not answered.
-/

namespace FlashGpuSim

open Lib

variable {c : StreamBufferConfig}

/-- The `depth` lines after the demanded one that are 64-bit addresses. -/
def StreamBufferConfig.lineWindow (c : StreamBufferConfig) (demandLine : Nat) : List Nat :=
  ((List.range c.depth).map fun k => demandLine + (k + 1) * c.lineSize).filter (· < 2 ^ 64)

theorem StreamBufferConfig.lineSize_pos (c : StreamBufferConfig) : 0 < c.lineSize :=
  Nat.pos_of_ne_zero c.lineSize_ne

theorem StreamBufferConfig.lineWindow_pairwise (c : StreamBufferConfig) (demandLine : Nat) :
    (c.lineWindow demandLine).Pairwise (· < ·) := by
  unfold lineWindow
  apply List.Pairwise.filter
  rw [List.pairwise_map]
  apply List.pairwise_lt_range.imp
  intro k k' hlt
  have hmul : (k + 1) * c.lineSize < (k' + 1) * c.lineSize :=
    Nat.mul_lt_mul_of_pos_right (by omega) c.lineSize_pos
  omega

theorem StreamBufferConfig.mem_lineWindow {demandLine a : Nat} :
    a ∈ c.lineWindow demandLine ↔
      ∃ k, 1 ≤ k ∧ k ≤ c.depth ∧ a = demandLine + k * c.lineSize ∧ a < 2 ^ 64 := by
  simp only [lineWindow, List.mem_filter, List.mem_map, List.mem_range, decide_eq_true_eq]
  constructor
  · rintro ⟨⟨k, hk, rfl⟩, hlt⟩
    exact ⟨k + 1, by omega, by omega, rfl, hlt⟩
  · rintro ⟨k, hpos, hle, rfl, hlt⟩
    exact ⟨⟨k - 1, by omega, by rw [Nat.sub_add_cancel hpos]⟩, hlt⟩

theorem StreamBufferConfig.lt_of_mem_lineWindow {demandLine a : Nat}
    (h : a ∈ c.lineWindow demandLine) : demandLine < a := by
  obtain ⟨k, hpos, -, rfl, -⟩ := mem_lineWindow.mp h
  have hmul : 0 < k * c.lineSize := Nat.mul_pos hpos c.lineSize_pos
  omega

/-- After a demand inside the window the lines still ahead are lines of the new window. -/
theorem StreamBufferConfig.mem_lineWindow_of_slide {demandLine line a : Nat}
    (hline : line ∈ c.lineWindow demandLine) (ha : a ∈ c.lineWindow demandLine)
    (hlt : line < a) : a ∈ c.lineWindow line := by
  obtain ⟨k, hpos, -, rfl, -⟩ := mem_lineWindow.mp hline
  obtain ⟨k', -, hle', rfl, hbound⟩ := mem_lineWindow.mp ha
  have hk : k < k' := by
    by_contra hge
    have := Nat.mul_le_mul_right c.lineSize (Nat.le_of_not_lt hge)
    omega
  refine mem_lineWindow.mpr ⟨k' - k, by omega, by omega, ?_, hbound⟩
  rw [Nat.sub_mul]
  have := Nat.mul_le_mul_right c.lineSize hk.le
  omega

theorem StreamBufferConfig.length_lineWindow_le (demandLine : Nat) :
    (c.lineWindow demandLine).length ≤ c.depth := by
  apply (List.length_filter_le _ _).trans
  simp

/-! ### Filling the window -/

namespace StreamState

/-- The test that leaves the loop asks whether the line is above the largest address. -/
theorem breaks_iff {lineSize demandLine distance : Nat} (hsize : 0 < lineSize)
    (hpos : 1 ≤ distance) :
    distance > (2 ^ 64 - 1 - demandLine) / lineSize ↔
      ¬ demandLine + distance * lineSize < 2 ^ 64 := by
  have hmul : 0 < distance * lineSize := Nat.mul_pos hpos hsize
  rw [gt_iff_lt, Nat.div_lt_iff_lt_mul hsize]
  omega

/-- What the loop appends: queued entries of the addresses that were missing. -/
theorem addDistances_spec {lineSize : Nat} (demandLine : Nat) (hsize : 0 < lineSize)
    {distances : List Nat} (hpos : ∀ d ∈ distances, 1 ≤ d)
    (hsorted : distances.Pairwise (· ≤ ·)) (entries : List StreamEntry) :
    ∃ added, (addDistances lineSize demandLine distances entries).1 = entries ++ added ∧
      (∀ e ∈ added, e.state = .queued) ∧
      ((entries.map StreamEntry.address).Nodup →
        ((entries ++ added).map StreamEntry.address).Nodup) ∧
      ∀ a, a ∈ (entries ++ added).map StreamEntry.address ↔
        a ∈ entries.map StreamEntry.address ∨
          ∃ d ∈ distances, a = demandLine + d * lineSize ∧ a < 2 ^ 64 := by
  induction distances generalizing entries with
  | nil => exact ⟨[], by simp [addDistances]⟩
  | cons d rest ih =>
    obtain ⟨hd, hrest⟩ := List.forall_mem_cons.mp hpos
    obtain ⟨hle, hsorted⟩ := List.pairwise_cons.mp hsorted
    unfold addDistances
    by_cases hbreak : d > (2 ^ 64 - 1 - demandLine) / lineSize
    · rw [if_pos hbreak]
      refine ⟨[], (List.append_nil _).symm, by simp, by simp, fun a => ?_⟩
      rw [List.append_nil]
      refine ⟨.inl, fun h => h.resolve_right ?_⟩
      rintro ⟨d', hd', rfl, hlt⟩
      -- the later distances are no smaller
      have hdd : d ≤ d' := by
        rcases List.mem_cons.mp hd' with rfl | hmem
        · exact le_refl _
        · exact hle d' hmem
      have := Nat.mul_le_mul_right lineSize hdd
      have := (breaks_iff hsize hd).mp hbreak
      omega
    · rw [if_neg hbreak]
      have hlt : demandLine + d * lineSize < 2 ^ 64 :=
        Classical.not_not.mp fun hn => hbreak ((breaks_iff hsize hd).mpr hn)
      dsimp only
      split
      · rename_i hnone
        obtain ⟨added, heq, hqueued, hnodup, hmem⟩ := ih hrest hsorted
          (entries ++ [⟨demandLine + d * lineSize, .queued⟩])
        refine ⟨⟨demandLine + d * lineSize, .queued⟩ :: added, ?_, ?_, ?_, fun a => ?_⟩
        · rw [heq, List.append_assoc, List.singleton_append]
        · exact List.forall_mem_cons.mpr ⟨rfl, hqueued⟩
        · intro hn
          rw [← List.singleton_append, ← List.append_assoc]
          apply hnodup
          rw [List.map_append, List.nodup_append]
          refine ⟨hn, List.nodup_singleton _, ?_⟩
          intro a ha b hb hab
          rw [List.map_singleton, List.mem_singleton] at hb
          obtain ⟨e, he, rfl⟩ := List.mem_map.mp ha
          rw [Option.isNone_iff_eq_none] at hnone
          simpa [hab, hb] using List.find?_eq_none.mp hnone e he
        · rw [← List.singleton_append, ← List.append_assoc, hmem a, List.map_append, List.mem_append,
            List.map_singleton, List.mem_singleton]
          constructor
          · rintro ((h | rfl) | ⟨d', hd', h⟩)
            · exact .inl h
            · exact .inr ⟨d, List.mem_cons_self, rfl, hlt⟩
            · exact .inr ⟨d', List.mem_cons_of_mem _ hd', h⟩
          · rintro (h | ⟨d', hd', rfl, h⟩)
            · exact .inl (.inl h)
            · rcases List.mem_cons.mp hd' with rfl | hd'
              · exact .inl (.inr rfl)
              · exact .inr ⟨d', hd', rfl, h⟩
      · rename_i hsome
        obtain ⟨added, heq, hqueued, hnodup, hmem⟩ := ih hrest hsorted entries
        refine ⟨added, heq, hqueued, hnodup, fun a => ?_⟩
        rw [hmem a]
        constructor
        · rintro (h | ⟨d', hd', h⟩)
          · exact .inl h
          · exact .inr ⟨d', List.mem_cons_of_mem _ hd', h⟩
        · rintro (h | ⟨d', hd', rfl, h⟩)
          · exact .inl h
          · rcases List.mem_cons.mp hd' with rfl | hd'
            · obtain ⟨e, he⟩ := Option.ne_none_iff_exists'.mp
                (mt Option.isNone_iff_eq_none.mpr hsome)
              refine .inl (List.mem_map.mpr ⟨e, List.mem_of_find?_eq_some he, ?_⟩)
              simpa using List.find?_some he
            · exact .inr ⟨d', hd', rfl, h⟩

/-- The entries of a filled window: the old ones ahead of the demand, and queued ones. -/
structure Filled (c : StreamBufferConfig) (s s' : StreamState) : Prop where
  same : s' = { s with entries := s'.entries }
  window : s'.entries.map StreamEntry.address = c.lineWindow s.demandLine
  old : ∀ e ∈ s'.entries, e.state ≠ .queued → e ∈ s.entries
  kept : ∀ e ∈ s.entries, s.demandLine < e.address → e ∈ s'.entries

/-- A stream whose entries ahead of the demand are lines of the new window. -/
structure Fillable (c : StreamBufferConfig) (s : StreamState) : Prop where
  nodup : (s.entries.map StreamEntry.address).Nodup
  ahead : ∀ e ∈ s.entries, s.demandLine < e.address → e.address ∈ c.lineWindow s.demandLine

/-- The sorted entries that `refill_window` computes. -/
def filledEntries (c : StreamBufferConfig) (s : StreamState) : List StreamEntry :=
  (addDistances c.lineSize s.demandLine ((List.range c.depth).map (· + 1))
    (s.entries.filter (fun candidate => !decide (candidate.address ≤ s.demandLine)))).1.insertionSort
      (fun left right => left.address ≤ right.address)

theorem Fillable.filled {s : StreamState} (h : s.Fillable c) :
    Filled c s { s with entries := s.filledEntries c } := by
  obtain ⟨added, heq, hqueued, hnodup, hmem⟩ :=
    addDistances_spec s.demandLine c.lineSize_pos
      (show ∀ d ∈ (List.range c.depth).map (· + 1), 1 ≤ d by simp)
      (List.pairwise_map.mpr (List.pairwise_lt_range.imp (by omega)))
      (s.entries.filter (fun candidate => !decide (candidate.address ≤ s.demandLine)))
  have hkept : ∀ e, e ∈ s.entries.filter
      (fun candidate => !decide (candidate.address ≤ s.demandLine)) ↔
        e ∈ s.entries ∧ s.demandLine < e.address := by
    intro e
    simp [List.mem_filter]
  have hsort : ∀ e, e ∈ s.filledEntries c ↔
      (e ∈ s.entries ∧ s.demandLine < e.address) ∨ e ∈ added := by
    intro e
    rw [filledEntries, List.mem_insertionSort, heq, List.mem_append, hkept]
  have hperm : List.Perm ((s.filledEntries c).map StreamEntry.address)
      ((s.entries.filter (fun candidate => !decide (candidate.address ≤ s.demandLine)) ++
        added).map StreamEntry.address) := by
    unfold filledEntries
    rw [heq]
    exact (List.perm_insertionSort _ _).map _
  refine ⟨rfl, ?_, ?_, ?_⟩
  · have hstrict : ((s.filledEntries c).map StreamEntry.address).Pairwise (· < ·) := by
      have hle : ((s.filledEntries c).map StreamEntry.address).Pairwise (· ≤ ·) :=
        List.pairwise_map.mpr (List.pairwise_insertionSort _ _)
      have hne : ((s.filledEntries c).map StreamEntry.address).Nodup :=
        hperm.nodup_iff.mpr (hnodup (h.nodup.sublist (List.filter_sublist.map _)))
      exact (hle.and hne).imp fun hab => lt_of_le_of_ne hab.1 hab.2
    apply hstrict.eq_of_mem_iff (c.lineWindow_pairwise _)
    intro a
    rw [hperm.mem_iff, hmem a, StreamBufferConfig.mem_lineWindow]
    constructor
    · rintro (ha | ⟨d, hd, rfl, hlt⟩)
      · obtain ⟨e, he, rfl⟩ := List.mem_map.mp ha
        exact StreamBufferConfig.mem_lineWindow.mp (h.ahead e ((hkept e).mp he).1 ((hkept e).mp he).2)
      · obtain ⟨k, hk, rfl⟩ := List.mem_map.mp hd
        exact ⟨k + 1, by omega, by simpa using hk, rfl, hlt⟩
    · rintro ⟨k, hpos, hle, rfl, hlt⟩
      refine .inr ⟨k, List.mem_map.mpr ⟨k - 1, by simp; omega, by omega⟩, rfl, hlt⟩
  · intro e he hstate
    rcases (hsort e).mp he with hold | hadded
    · exact hold.1
    · exact (hstate (hqueued e hadded)).elim
  · intro e he hlt
    exact (hsort e).mpr (.inl ⟨he, hlt⟩)

theorem refillWindow_ok {s s' : StreamState} (h : s.Fillable c)
    (hok : s.refillWindow c = .ok s') : Filled c s s' := by
  unfold refillWindow at hok
  dsimp only at hok
  obtain ⟨_, -, hok⟩ := bind_eq_ok hok
  obtain ⟨_, -, hok⟩ := bind_eq_ok hok
  cases hok
  exact h.filled

/-- Only a depth that the 32-bit distance cannot pass makes `refill_window` fail. -/
theorem refillWindow_isOk {s : StreamState} (h : s.Fillable c) (hdepth : c.depth < 2 ^ 32 - 1) :
    ∃ s', s.refillWindow c = .ok s' := by
  refine ⟨{ s with entries := s.filledEntries c }, ?_⟩
  have hlen : (s.filledEntries c).length ≤ c.depth := by
    have hwindow := congrArg List.length h.filled.window
    rw [List.length_map] at hwindow
    rw [hwindow]
    exact StreamBufferConfig.length_lineWindow_le _
  unfold refillWindow
  dsimp only
  rw [require_pass (Bool.or_eq_true_iff.mpr (.inr (decide_eq_true hdepth)))]
  show (require (decide ((s.filledEntries c).length ≤ c.depth)) _ >>= _) = _
  rw [require_pass (by simpa using hlen)]
  rfl

/-! ### What one operation does to a stream -/

/-- An idle stream is empty, a valid one holds its window. -/
structure Windowed (c : StreamBufferConfig) (s : StreamState) : Prop where
  idle : s.valid = false → s.entries = []
  window : s.valid = true → s.entries.map StreamEntry.address = c.lineWindow s.demandLine

/-- The stream still has the generation of the request, and either the demand has passed its
line or the entry is in flight. -/
structure Carries (s : StreamState) (r : PrefetchRequest) : Prop where
  generation : s.generation = r.generation
  context : s.context = r.context
  valid : s.valid = true
  line : r.address ≤ s.demandLine ∨ ⟨r.address, .inflight⟩ ∈ s.entries

/-- A change that sends and answers nothing: entries in flight leave with their generation or
behind the demand, and none appears. -/
structure Slides (s s' : StreamState) : Prop where
  later : s.generation ≤ s'.generation
  carried : s.generation = s'.generation → ∀ r, s.Carries r → s'.Carries r
  old : ∀ e ∈ s'.entries, e.state = .inflight →
    e ∈ s.entries ∧ s'.generation = s.generation ∧ s'.context = s.context

theorem Slides.refl (s : StreamState) : s.Slides s where
  later := le_refl _
  carried _ _ h := h
  old _ he _ := ⟨he, rfl, rfl⟩

theorem Windowed.nodup {s : StreamState} (h : s.Windowed c) :
    (s.entries.map StreamEntry.address).Nodup := by
  cases hv : s.valid with
  | false => simp [h.idle hv]
  | true =>
    rw [h.window hv]
    exact (c.lineWindow_pairwise _).imp ne_of_lt

theorem Windowed.ahead {s : StreamState} (h : s.Windowed c) (hv : s.valid = true)
    {e : StreamEntry} (he : e ∈ s.entries) : e.address ∈ c.lineWindow s.demandLine := by
  rw [← h.window hv]
  exact List.mem_map.mpr ⟨e, he, rfl⟩

theorem Windowed.invalidate (s : StreamState) : s.invalidate.Windowed c where
  idle _ := rfl
  window h := by cases h

theorem Slides.invalidate (s : StreamState) : s.Slides s.invalidate where
  later := Nat.le_succ _
  carried h := by simp [StreamState.invalidate] at h
  old e he := by simp [StreamState.invalidate] at he

theorem Filled.windowed {s s' : StreamState} (h : Filled c s s') (hv : s.valid = true) :
    s'.Windowed c := by
  rw [h.same]
  exact ⟨fun hf => by simp [hv] at hf, fun _ => h.window⟩

/-- The demand of a line of the window. -/
def demand (s : StreamState) (line lastUse : Nat) : StreamState :=
  { s with demandLine := line, lastUse }

theorem Windowed.fillable_demand {s : StreamState} (h : s.Windowed c) (hv : s.valid = true)
    {line lastUse : Nat} (hline : line ∈ s.entries.map StreamEntry.address) :
    (s.demand line lastUse).Fillable c where
  nodup := h.nodup
  ahead e he hlt := by
    rw [h.window hv] at hline
    exact StreamBufferConfig.mem_lineWindow_of_slide hline (h.ahead hv he) hlt

theorem Slides.demand {s s' : StreamState} (h : s.Windowed c) (hv : s.valid = true)
    {line lastUse : Nat} (hline : line ∈ s.entries.map StreamEntry.address)
    (hfilled : Filled c (s.demand line lastUse) s') : s.Slides s' := by
  rw [h.window hv] at hline
  have hlt := StreamBufferConfig.lt_of_mem_lineWindow hline
  have hsame := hfilled.same
  refine ⟨?_, ?_, ?_⟩
  · rw [hsame]
    exact le_refl _
  · rintro - r ⟨hgen, hctx, -, hwhere⟩
    have hpassed : r.address ≤ line ∨ ⟨r.address, .inflight⟩ ∈ s'.entries := by
      rcases hwhere with hle | hmem
      · exact .inl (hle.trans hlt.le)
      · rcases Nat.lt_or_ge line r.address with hahead | hbehind
        · exact .inr (hfilled.kept _ hmem hahead)
        · exact .inl hbehind
    rw [hsame]
    exact ⟨hgen, hctx, hv, hpassed⟩
  · intro e he hstate
    refine ⟨hfilled.old e he (by simp [hstate]), ?_, ?_⟩ <;> rw [hsame] <;> rfl

theorem fillable_restart {s : StreamState} (h : s.entries = []) (context line lastUse : Nat) :
    (s.restart context line lastUse).Fillable c where
  nodup := by simp [restart, h]
  ahead e he := by simp [restart, h] at he

theorem Slides.restart {s s₀ s' : StreamState} (hempty : s.entries = [])
    (hgen : s₀.generation ≤ s.generation) {context line lastUse : Nat}
    (hfilled : Filled c (s.restart context line lastUse) s') : s₀.Slides s' := by
  have hsame := congrArg StreamState.generation hfilled.same
  have hlater : s₀.generation < s'.generation := by
    rw [hsame]
    exact Nat.lt_succ_of_le hgen
  refine ⟨hlater.le, fun h => (hlater.ne h).elim, ?_⟩
  intro e he hstate
  have hold := hfilled.old e he (by simp [hstate])
  simp [StreamState.restart, hempty] at hold

/-! ### One entry changes its state -/

theorem map_address_setFirst (p : StreamEntry → Bool) (state : PrefetchState)
    (entries : List StreamEntry) :
    (setFirst p state entries).map StreamEntry.address = entries.map StreamEntry.address := by
  induction entries with
  | nil => rfl
  | cons e rest ih =>
    unfold setFirst
    cases p e
    · simp [ih]
    · simp

/-- With distinct addresses only the entry of that address is another one afterwards. -/
theorem mem_setFirst {p : StreamEntry → Bool} (state : PrefetchState)
    {entries : List StreamEntry} {found : StreamEntry} (hfound : entries.find? p = some found)
    (hnodup : (entries.map StreamEntry.address).Nodup) (e : StreamEntry) :
    e ∈ setFirst p state entries ↔
      e = { found with state } ∨ e ∈ entries ∧ e.address ≠ found.address := by
  induction entries with
  | nil => cases hfound
  | cons x rest ih =>
    rw [List.map_cons, List.nodup_cons] at hnodup
    have hne : ∀ y ∈ rest, y.address ≠ x.address := fun y hy heq =>
      hnodup.1 (heq ▸ List.mem_map.mpr ⟨y, hy, rfl⟩)
    unfold setFirst
    cases hp : p x with
    | true =>
      rw [List.find?_cons_of_pos hp] at hfound
      cases hfound
      rw [if_pos rfl, List.mem_cons, List.mem_cons]
      constructor
      · rintro (rfl | he)
        · exact .inl rfl
        · exact .inr ⟨.inr he, hne e he⟩
      · rintro (rfl | ⟨rfl | he, haddr⟩)
        · exact .inl rfl
        · exact (haddr rfl).elim
        · exact .inr he
    | false =>
      rw [List.find?_cons_of_neg (by simp [hp])] at hfound
      have hfx : found.address ≠ x.address := hne found (List.mem_of_find?_eq_some hfound)
      rw [if_neg (by simp), List.mem_cons, List.mem_cons, ih hfound hnodup.2]
      constructor
      · rintro (rfl | rfl | ⟨he, haddr⟩)
        · exact .inr ⟨.inl rfl, hfx.symm⟩
        · exact .inl rfl
        · exact .inr ⟨.inr he, haddr⟩
      · rintro (rfl | ⟨rfl | he, haddr⟩)
        · exact .inr (.inl rfl)
        · exact .inl rfl
        · exact .inr (.inr ⟨he, haddr⟩)

/-- The stream with the state of one entry written. -/
def mark (s : StreamState) (p : StreamEntry → Bool) (state : PrefetchState) : StreamState :=
  { s with entries := setFirst p state s.entries }

theorem Windowed.mark {s : StreamState} (h : s.Windowed c) (p : StreamEntry → Bool)
    (state : PrefetchState) : (s.mark p state).Windowed c where
  idle hv := by simp [StreamState.mark, h.idle hv, setFirst]
  window hv := (map_address_setFirst p state s.entries).trans (h.window hv)

end StreamState

/-! ### The requests in flight -/

/-- What tells the requests of a buffer apart. -/
def PrefetchRequest.key (r : PrefetchRequest) : Nat × Nat × Nat :=
  (r.stream, r.generation, r.address)

namespace InstructionStreamBuffer

/-- The buffer and the requests that were sent and not answered fit together. -/
structure Tracks (c : StreamBufferConfig) (u : InstructionStreamBuffer)
    (unanswered : List PrefetchRequest) : Prop where
  width : u.streams.length = c.streams
  windowed : ∀ {i : Nat} {s : StreamState}, u.streams[i]? = some s → s.Windowed c
  owned : ∀ {i : Nat} {s : StreamState}, u.streams[i]? = some s → ∀ e ∈ s.entries, e.state = .inflight →
    ⟨e.address, s.context, s.generation, i⟩ ∈ unanswered
  placed : ∀ r ∈ unanswered, ∃ s, u.streams[r.stream]? = some s ∧
    (r.generation < s.generation ∨ s.Carries r)
  single : (unanswered.map PrefetchRequest.key).Nodup

variable {u u' : InstructionStreamBuffer} {unanswered : List PrefetchRequest}

theorem tracks_init (c : StreamBufferConfig) : Tracks c (init c) [] where
  width := List.length_replicate
  windowed h := by
    obtain ⟨-, rfl⟩ := List.mem_replicate.mp (List.mem_of_getElem? h)
    exact ⟨fun _ => rfl, fun hv => by cases hv⟩
  owned h e he := by
    obtain ⟨-, rfl⟩ := List.mem_replicate.mp (List.mem_of_getElem? h)
    exact absurd he List.not_mem_nil
  placed r hr := absurd hr List.not_mem_nil
  single := List.nodup_nil

/-- Every stream slides to the stream of the same index. -/
structure Slid (c : StreamBufferConfig) (u u' : InstructionStreamBuffer) : Prop where
  width : u'.streams.length = u.streams.length
  slides : ∀ {i : Nat} {s s' : StreamState}, u.streams[i]? = some s → u'.streams[i]? = some s' →
    s.Slides s' ∧ s'.Windowed c

theorem Tracks.of_slid (h : Tracks c u unanswered) (hslid : Slid c u u') :
    Tracks c u' unanswered := by
  have hback : ∀ {i : Nat} {s' : StreamState}, u'.streams[i]? = some s' → ∃ s, u.streams[i]? = some s := by
    intro i s' hs'
    have hlt := (List.getElem?_eq_some_iff.mp hs').1
    rw [hslid.width] at hlt
    exact ⟨_, List.getElem?_eq_getElem hlt⟩
  refine ⟨hslid.width.trans h.width, ?_, ?_, ?_, h.single⟩
  · intro i s' hs'
    obtain ⟨s, hs⟩ := hback hs'
    exact (hslid.slides hs hs').2
  · intro i s' hs' e he hstate
    obtain ⟨s, hs⟩ := hback hs'
    obtain ⟨hold, hgen, hctx⟩ := (hslid.slides hs hs').1.old e he hstate
    rw [hgen, hctx]
    exact h.owned hs e hold hstate
  · intro r hr
    obtain ⟨s, hs, hwhere⟩ := h.placed r hr
    have hlt := (List.getElem?_eq_some_iff.mp hs).1
    rw [← hslid.width] at hlt
    have hslides := (hslid.slides hs (List.getElem?_eq_getElem hlt)).1
    refine ⟨_, List.getElem?_eq_getElem hlt, ?_⟩
    rcases hwhere with hlater | hcarries
    · exact .inl (hlater.trans_le hslides.later)
    · rcases hslides.later.lt_or_eq with hlater | heq
      · exact .inl (hcarries.generation ▸ hlater)
      · exact .inr (hslides.carried heq r hcarries)

/-- One stream slides, the others stay. -/
theorem Tracks.slid_set (h : Tracks c u unanswered) {i : Nat} {s s' : StreamState}
    (hs : u.streams[i]? = some s) (hslides : s.Slides s') (hwindowed : s'.Windowed c)
    (hstreams : u'.streams = u.streams.set i s') : Slid c u u' where
  width := by rw [hstreams, List.length_set]
  slides {j t t'} ht ht' := by
    rw [hstreams] at ht'
    rcases eq_or_ne i j with rfl | hne
    · rw [List.getElem?_set_self (List.getElem?_eq_some_iff.mp hs).1] at ht'
      cases hs.symm.trans ht
      cases ht'
      exact ⟨hslides, hwindowed⟩
    · rw [List.getElem?_set_ne hne] at ht'
      cases ht.symm.trans ht'
      exact ⟨.refl t, h.windowed ht⟩

theorem emplaceBaseLine_streams (u : InstructionStreamBuffer) (context line : Nat) :
    (u.emplaceBaseLine context line).streams = u.streams := by
  unfold emplaceBaseLine
  split <;> rfl

theorem Tracks.of_streams (h : Tracks c u unanswered) (hstreams : u'.streams = u.streams) :
    Tracks c u' unanswered := by
  obtain ⟨hwidth, hwindowed, howned, hplaced, hsingle⟩ := h
  rw [← hstreams] at hwidth hwindowed howned hplaced
  exact ⟨hwidth, hwindowed, howned, hplaced, hsingle⟩

/-- The stream that `start_stream` takes is empty once it is invalidated. -/
theorem Tracks.restarted (h : Tracks c u unanswered) {s : StreamState} (context line lastUse : Nat)
    (hs : u.streams[(u.streams.findIdx? (fun s => !s.valid)).getD u.leastRecentlyUsed]? = some s) :
    (((if (u.streams.findIdx? (fun s => !s.valid)).isSome then s else s.invalidate).restart
        context line lastUse).Fillable c) ∧
      ∀ s', StreamState.Filled c ((if (u.streams.findIdx? (fun s => !s.valid)).isSome then s
        else s.invalidate).restart context line lastUse) s' → s.Slides s' ∧ s'.Windowed c := by
  cases htarget : u.streams.findIdx? (fun s => !s.valid) with
  | none =>
    rw [htarget] at hs
    exact ⟨StreamState.fillable_restart rfl _ _ _, fun s' hfilled =>
      ⟨.restart rfl (Nat.le_succ _) hfilled, hfilled.windowed rfl⟩⟩
  | some i =>
    rw [htarget] at hs
    obtain ⟨hlt, hinvalid, -⟩ := List.findIdx?_eq_some_iff_getElem.mp htarget
    have hget : u.streams[i] = s := by
      simpa [List.getElem?_eq_getElem hlt] using hs
    have hempty : s.entries = [] := (h.windowed hs).idle (by simpa [hget] using hinvalid)
    exact ⟨StreamState.fillable_restart hempty _ _ _, fun s' hfilled =>
      ⟨.restart hempty (le_refl _) hfilled, hfilled.windowed rfl⟩⟩

theorem Tracks.startStream (h : Tracks c u unanswered) {context line : Nat}
    (hok : u.startStream c context line = .ok u') : Tracks c u' unanswered := by
  unfold InstructionStreamBuffer.startStream at hok
  dsimp only at hok
  split at hok
  · cases hok
  · rename_i s hs
    obtain ⟨s', hrefill, hok⟩ := bind_eq_ok hok
    cases hok
    obtain ⟨hfillable, hfilled⟩ := h.restarted context line (u.clock + 1) hs
    obtain ⟨hslides, hwindowed⟩ := hfilled s' (StreamState.refillWindow_ok hfillable hrefill)
    exact h.of_slid (h.slid_set hs hslides hwindowed rfl)

theorem tracking_some {context line i : Nat} {s : StreamState} {e : StreamEntry}
    (h : u.tracking context line = some (i, s, e)) :
    u.streams[i]? = some s ∧ s.valid = true ∧ s.context = context ∧
      line ∈ s.entries.map StreamEntry.address := by
  obtain ⟨⟨t, j⟩, hmem, hfound⟩ := List.exists_of_findSome?_eq_some h
  have hget := List.mem_zipIdx_iff_getElem?.mp hmem
  dsimp only at hfound hget
  split at hfound
  · rename_i hcond
    obtain ⟨candidate, hentry, heq⟩ := Option.map_eq_some_iff.mp hfound
    cases heq
    rw [Bool.and_eq_true, decide_eq_true_eq] at hcond
    refine ⟨hget, hcond.1, hcond.2, List.mem_map.mpr ⟨e, List.mem_of_find?_eq_some hentry, ?_⟩⟩
    simpa using List.find?_some hentry
  · cases hfound

theorem Tracks.observeDemand (h : Tracks c u unanswered) {context address : Nat} {miss : Bool}
    {result : DemandState} (hok : u.observeDemand c context address miss = .ok (u', result)) :
    Tracks c u' unanswered := by
  have hbase : Tracks c (u.emplaceBaseLine context (c.lineAddress address)) unanswered :=
    h.of_streams (emplaceBaseLine_streams _ _ _)
  unfold InstructionStreamBuffer.observeDemand at hok
  dsimp only at hok
  split at hok
  · rename_i i s e htracking
    obtain ⟨hs, hvalid, -, hline⟩ := tracking_some htracking
    obtain ⟨s', hrefill, hok⟩ := bind_eq_ok hok
    cases hok
    have hwindowed := hbase.windowed hs
    have hfilled := StreamState.refillWindow_ok (hwindowed.fillable_demand hvalid hline) hrefill
    exact hbase.of_slid
      (hbase.slid_set hs (.demand hwindowed hvalid hline hfilled) (hfilled.windowed hvalid) rfl)
  · cases miss with
    | false =>
      cases hok
      exact hbase
    | true =>
      obtain ⟨v, hstart, hok⟩ := bind_eq_ok hok
      cases hok
      exact hbase.startStream hstart

theorem Tracks.map (h : Tracks c u unanswered) {f : StreamState → StreamState}
    (hf : ∀ s, s.Windowed c → s.Slides (f s) ∧ (f s).Windowed c)
    (hstreams : u'.streams = u.streams.map f) : Tracks c u' unanswered := by
  apply h.of_slid
  refine ⟨by rw [hstreams, List.length_map], ?_⟩
  intro i s s' hs hs'
  rw [hstreams, List.getElem?_map, hs] at hs'
  cases hs'
  exact hf s (h.windowed hs)

theorem Tracks.cancelContext (h : Tracks c u unanswered) (context : Nat) :
    Tracks c (u.cancelContext context) unanswered := by
  apply h.map (fun s hs => ?_) rfl
  split
  · exact ⟨.invalidate s, .invalidate s⟩
  · exact ⟨.refl s, hs⟩

theorem Tracks.reset (h : Tracks c u unanswered) : Tracks c u.reset unanswered :=
  h.map (fun s _ => ⟨.invalidate s, .invalidate s⟩) rfl

/-! ### Sending and answering -/

theorem Tracks.entry_ext {s : StreamState} {i : Nat} (h : Tracks c u unanswered)
    (hs : u.streams[i]? = some s) {e e' : StreamEntry} (he : e ∈ s.entries) (he' : e' ∈ s.entries)
    (haddr : e.address = e'.address) : e = e' :=
  List.inj_on_of_nodup_map (h.windowed hs).nodup he he' haddr

/-- The state of one entry is written and its request is sent or answered. -/
theorem Tracks.of_mark (h : Tracks c u unanswered) {i : Nat} {s : StreamState} {e : StreamEntry}
    {p : StreamEntry → Bool} {state : PrefetchState} {unanswered' : List PrefetchRequest}
    (hs : u.streams[i]? = some s) (hvalid : s.valid = true) (hfound : s.entries.find? p = some e)
    (hstreams : u'.streams = u.streams.set i (s.mark p state))
    (hkept : ∀ r ∈ unanswered, r ≠ ⟨e.address, s.context, s.generation, i⟩ → r ∈ unanswered')
    (hsent : state = .inflight → ⟨e.address, s.context, s.generation, i⟩ ∈ unanswered')
    (hplaced : ∀ r ∈ unanswered',
      (r = ⟨e.address, s.context, s.generation, i⟩ ∧ state = .inflight) ∨
        (r ∈ unanswered ∧
          (e.state = .inflight → r ≠ ⟨e.address, s.context, s.generation, i⟩)))
    (hsingle : (unanswered'.map PrefetchRequest.key).Nodup) : Tracks c u' unanswered' := by
  have hlt : i < u.streams.length := (List.getElem?_eq_some_iff.mp hs).1
  have hself : u'.streams[i]? = some (s.mark p state) := by
    rw [hstreams, List.getElem?_set_self hlt]
  have hother : ∀ {j : Nat}, i ≠ j → u'.streams[j]? = u.streams[j]? := by
    intro j hne
    rw [hstreams, List.getElem?_set_ne hne]
  have hmem := StreamState.mem_setFirst state hfound (h.windowed hs).nodup
  have hein : e ∈ s.entries := List.mem_of_find?_eq_some hfound
  refine ⟨by rw [hstreams, List.length_set, h.width], ?_, ?_, ?_, hsingle⟩
  · intro j t ht
    rcases eq_or_ne i j with rfl | hne
    · cases hself.symm.trans ht
      exact (h.windowed hs).mark p state
    · exact h.windowed ((hother hne).symm.trans ht)
  · intro j t ht x hx hstate
    rcases eq_or_ne i j with rfl | hne
    · cases hself.symm.trans ht
      rcases (hmem x).mp hx with rfl | ⟨hx, haddr⟩
      · exact hsent hstate
      · apply hkept _ (h.owned hs x hx hstate)
        intro heq
        exact haddr (congrArg PrefetchRequest.address heq)
    · apply hkept _ (h.owned ((hother hne).symm.trans ht) x hx hstate)
      intro heq
      exact hne (congrArg PrefetchRequest.stream heq).symm
  · intro r hr
    rcases hplaced r hr with ⟨rfl, hstate⟩ | ⟨hr, hne⟩
    · refine ⟨_, hself, .inr ⟨rfl, rfl, hvalid, .inr ?_⟩⟩
      exact (hmem _).mpr (.inl (by rw [hstate]))
    · obtain ⟨t, ht, hwhere⟩ := h.placed r hr
      rcases eq_or_ne i r.stream with hi | hij
      · rw [← hi] at ht ⊢
        cases hs.symm.trans ht
        refine ⟨_, hself, hwhere.imp id fun hcarries => ?_⟩
        refine ⟨hcarries.generation, hcarries.context, hvalid, hcarries.line.imp id fun hx => ?_⟩
        refine (hmem _).mpr (.inr ⟨hx, fun haddr => ?_⟩)
        -- the entry of the address is the one that is written
        have heq := h.entry_ext hs hx hein haddr
        apply hne (by rw [← heq])
        obtain ⟨hgen, hctx, -, -⟩ := hcarries
        cases r
        simp_all
      · exact ⟨t, (hother hij).trans ht, hwhere⟩

theorem Tracks.launch (h : Tracks c u unanswered) {i : Nat} {r : PrefetchRequest}
    (hlaunch : u.launch i = some (u', r)) : Tracks c u' (unanswered ++ [r]) := by
  unfold InstructionStreamBuffer.launch at hlaunch
  split at hlaunch
  · cases hlaunch
  · rename_i s hs
    split at hlaunch
    · rename_i hvalid
      split at hlaunch
      · cases hlaunch
      · rename_i e hfound
        cases hlaunch
        have hein : e ∈ s.entries := List.mem_of_find?_eq_some hfound
        have hqueued : e.state = .queued := by simpa using List.find?_some hfound
        apply h.of_mark hs hvalid hfound rfl
        · intro r hr _
          exact List.mem_append_left _ hr
        · intro _
          exact List.mem_append_right _ (List.mem_singleton.mpr rfl)
        · intro r hr
          rcases List.mem_append.mp hr with hr | hr
          · exact .inr ⟨hr, fun hstate => by simp [hqueued] at hstate⟩
          · exact .inl ⟨List.mem_singleton.mp hr, rfl⟩
        · rw [List.map_append, List.nodup_append]
          refine ⟨h.single, List.nodup_singleton _, ?_⟩
          intro k hk k' hk' heq
          rw [List.map_singleton, List.mem_singleton] at hk'
          obtain ⟨r, hr, rfl⟩ := List.mem_map.mp hk
          rw [hk'] at heq
          obtain ⟨hstream, hgen, haddr⟩ : r.stream = i ∧ r.generation = s.generation ∧
              r.address = e.address := by simpa [PrefetchRequest.key] using heq
          obtain ⟨t, ht, hwhere⟩ := h.placed r hr
          rw [hstream] at ht
          cases hs.symm.trans ht
          rcases hwhere with hlater | hcarries
          · exact hlater.ne hgen
          · rcases hcarries.line with hpassed | hin
            · have hahead := StreamBufferConfig.lt_of_mem_lineWindow
                ((h.windowed hs).ahead hvalid hein)
              omega
            · have := h.entry_ext hs hin hein haddr
              rw [← this] at hqueued
              cases hqueued
    · cases hlaunch

/-- What an answer does: nothing, when no entry is in flight for it, or its entry changes. -/
theorem Tracks.respond_cases (h : Tracks c u unanswered) (r : PrefetchRequest)
    (state : PrefetchState) :
    (u.respond r state = u ∧ ∀ s, u.streams[r.stream]? = some s → s.valid = true →
      s.context = r.context → s.generation = r.generation →
        ⟨r.address, .inflight⟩ ∉ s.entries) ∨
      ∃ s e, u.streams[r.stream]? = some s ∧ s.valid = true ∧
        s.entries.find? (·.address = r.address) = some e ∧ e.state = .inflight ∧
          r = ⟨e.address, s.context, s.generation, r.stream⟩ ∧
          (u.respond r state).streams =
            u.streams.set r.stream (s.mark (·.address = r.address) state) := by
  unfold respond requestStream
  cases hs : u.streams[r.stream]? with
  | none => exact .inl ⟨rfl, fun s hs' => by cases hs'⟩
  | some s =>
    dsimp only
    by_cases hother : (!s.valid || s.context != r.context || s.generation != r.generation) = true
    · rw [if_pos hother]
      refine .inl ⟨rfl, fun t ht hv hctx hgen => ?_⟩
      cases ht
      simp [hv, hctx, hgen] at hother
    · rw [if_neg hother]
      obtain ⟨hvalid, hctx, hgen⟩ : s.valid = true ∧ s.context = r.context ∧
          s.generation = r.generation := by
        simpa [not_or, and_assoc] using hother
      dsimp only
      unfold StreamState.findEntry
      cases hfind : s.entries.find? (·.address = r.address) with
      | none =>
        refine .inl ⟨rfl, fun t ht _ _ _ hin => ?_⟩
        cases ht
        simpa using List.find?_eq_none.mp hfind _ hin
      | some e =>
        have haddr : e.address = r.address := by simpa using List.find?_some hfind
        dsimp only
        by_cases hstate : e.state = .inflight
        · rw [if_neg (not_not_intro hstate)]
          exact .inr ⟨s, e, rfl, hvalid, hfind, hstate, by rw [haddr, hctx, hgen], rfl⟩
        · rw [if_pos hstate]
          refine .inl ⟨rfl, fun t ht _ _ _ hin => hstate ?_⟩
          cases ht
          rw [h.entry_ext hs (List.mem_of_find?_eq_some hfind) hin haddr]

theorem Tracks.nodup (h : Tracks c u unanswered) : unanswered.Nodup :=
  h.single.of_map _

theorem Tracks.respond (h : Tracks c u unanswered) (r : PrefetchRequest) {state : PrefetchState}
    (hstate : state ≠ .inflight) : Tracks c (u.respond r state) (unanswered.erase r) := by
  have hsingle : ((unanswered.erase r).map PrefetchRequest.key).Nodup :=
    h.single.sublist (List.erase_sublist.map _)
  rcases h.respond_cases r state with ⟨heq, hnone⟩ | ⟨s, e, hs, hvalid, hfound, hin, hr, hstreams⟩
  · rw [heq]
    refine ⟨h.width, h.windowed, ?_, fun r' hr' => h.placed r' (List.mem_of_mem_erase hr'), hsingle⟩
    intro i s hs e he hinflight
    rw [List.mem_erase_of_ne]
    · exact h.owned hs e he hinflight
    · rintro rfl
      cases hv : s.valid with
      | false =>
        rw [(h.windowed hs).idle hv] at he
        exact List.not_mem_nil he
      | true =>
        apply hnone s hs hv rfl rfl
        rw [← hinflight]
        exact he
  · apply h.of_mark hs hvalid hfound hstreams
    · intro r' hr' hne
      rw [← hr] at hne
      exact (List.mem_erase_of_ne hne).mpr hr'
    · intro hst
      exact (hstate hst).elim
    · intro r' hr'
      rw [← hr]
      exact .inr ⟨List.mem_of_mem_erase hr', fun _ => (h.nodup.mem_erase_iff.mp hr').1⟩
    · exact hsingle

theorem Tracks.issueScan {next : InstructionStreamBuffer →
      InstructionStreamBuffer × List PrefetchRequest}
    (hnext : ∀ {v : InstructionStreamBuffer} {open' : List PrefetchRequest}, Tracks c v open' →
      Tracks c (next v).1 (open' ++ (next v).2)) (unvisited : Nat) :
    ∀ {u : InstructionStreamBuffer} {unanswered : List PrefetchRequest}, Tracks c u unanswered →
      Tracks c (issueScan next unvisited u).1 (unanswered ++ (issueScan next unvisited u).2) := by
  induction unvisited with
  | zero =>
    intro u unanswered h
    rw [InstructionStreamBuffer.issueScan, List.append_nil]
    exact h
  | succ unvisited ih =>
    intro u unanswered h
    have hturned : Tracks c { u with issueCursor := (u.issueCursor + 1) % u.streams.length }
        unanswered := h.of_streams rfl
    unfold InstructionStreamBuffer.issueScan
    dsimp only
    split
    · exact ih hturned
    · rename_i v r hlaunch
      have hsent := hnext (hturned.launch hlaunch)
      rw [List.append_assoc] at hsent
      exact hsent

theorem Tracks.issueLoop (wanted : Nat) :
    ∀ {u : InstructionStreamBuffer} {unanswered : List PrefetchRequest}, Tracks c u unanswered →
      Tracks c (issueLoop wanted u).1 (unanswered ++ (issueLoop wanted u).2) := by
  induction wanted with
  | zero =>
    intro u unanswered h
    rw [InstructionStreamBuffer.issueLoop, List.append_nil]
    exact h
  | succ wanted ih =>
    intro u unanswered h
    exact Tracks.issueScan ih _ h

end InstructionStreamBuffer

/-! ### Runs -/

/-- A call of the buffer's interface. -/
inductive StreamCall
  | observeDemand (context address : Nat) (demandMiss : Bool)
  | issue
  | retry (request : PrefetchRequest)
  | markResident (request : PrefetchRequest)
  | fill (request : PrefetchRequest)
  | cancelContext (context : Nat)
  | reset

/-- `retry`, `mark_resident` and `fill` are the answers to a request. -/
inductive PrefetchEvent
  | issued (request : PrefetchRequest)
  | answered (request : PrefetchRequest)

/-- The requests of a log that no later answer has met. Requests have no identity of their own:
an answer meets one request of its value. -/
def unanswered (log : List PrefetchEvent) : List PrefetchRequest :=
  log.foldl (fun waiting event =>
    match event with
    | .issued r => waiting ++ [r]
    | .answered r => waiting.erase r) []

@[simp]
theorem unanswered_answered (log : List PrefetchEvent) (r : PrefetchRequest) :
    unanswered (log ++ [PrefetchEvent.answered r]) = (unanswered log).erase r := by
  simp [unanswered]

@[simp]
theorem unanswered_issued (log : List PrefetchEvent) (rs : List PrefetchRequest) :
    unanswered (log ++ rs.map .issued) = unanswered log ++ rs := by
  induction rs using List.reverseRecOn with
  | nil => simp
  | append_singleton rs r ih =>
    rw [List.map_append, ← List.append_assoc, ← List.append_assoc, ← ih]
    simp [unanswered]

/-- A buffer and the log of its requests and answers. -/
structure StreamHistory where
  buffer : InstructionStreamBuffer
  log : List PrefetchEvent

namespace StreamHistory

def init (c : StreamBufferConfig) : StreamHistory := ⟨.init c, []⟩

def answer (h : StreamHistory) (buffer : InstructionStreamBuffer) (r : PrefetchRequest) :
    StreamHistory :=
  ⟨buffer, h.log ++ [.answered r]⟩

/-- One call. An answer may be for any request, sent or not, and come any number of times. -/
def step (c : StreamBufferConfig) (h : StreamHistory) : StreamCall → Except StreamFault StreamHistory
  | .observeDemand context address demandMiss => do
    let (buffer, _) ← h.buffer.observeDemand c context address demandMiss
    return ⟨buffer, h.log⟩
  | .issue =>
    let (buffer, requests) := h.buffer.issue c
    .ok ⟨buffer, h.log ++ requests.map .issued⟩
  | .retry r => .ok (h.answer (h.buffer.retry r) r)
  | .markResident r => .ok (h.answer (h.buffer.markResident r) r)
  | .fill r => .ok (h.answer (h.buffer.fill r) r)
  | .cancelContext context => .ok ⟨h.buffer.cancelContext context, h.log⟩
  | .reset => .ok ⟨h.buffer.reset, h.log⟩

end StreamHistory

namespace InstructionStreamBuffer

/-- The step lemma of the invariant. -/
theorem Tracks.step {h h' : StreamHistory} {call : StreamCall}
    (htracks : Tracks c h.buffer (unanswered h.log)) (hok : h.step c call = .ok h') :
    Tracks c h'.buffer (unanswered h'.log) := by
  cases call with
  | observeDemand context address miss =>
    obtain ⟨⟨buffer, result⟩, hobserve, hok⟩ := bind_eq_ok hok
    cases hok
    exact htracks.observeDemand hobserve
  | issue =>
    cases hok
    rw [unanswered_issued]
    exact htracks.issueLoop c.issueWidth
  | retry r =>
    cases hok
    simp only [StreamHistory.answer, unanswered_answered]
    exact htracks.respond r (by simp)
  | markResident r =>
    cases hok
    simp only [StreamHistory.answer, unanswered_answered]
    exact htracks.respond r (by simp)
  | fill r =>
    cases hok
    simp only [StreamHistory.answer, unanswered_answered]
    exact htracks.respond r (by simp)
  | cancelContext context =>
    cases hok
    exact htracks.cancelContext context
  | reset =>
    cases hok
    exact htracks.reset

/-- The run lemma. -/
theorem tracks_of_reaches {h : StreamHistory}
    (hreach : Reaches (StreamHistory.step c) (fun _ _ => True) (.init c) h) :
    Tracks c h.buffer (unanswered h.log) := by
  apply hreach.invariant (fun h => Tracks c h.buffer (unanswered h.log)) (tracks_init c)
  intro s t call htracks _ hok
  exact htracks.step hok

theorem Tracks.startStream_isOk {unanswered : List PrefetchRequest} {u : InstructionStreamBuffer}
    (h : Tracks c u unanswered) (hdepth : c.depth < 2 ^ 32 - 1) (context line : Nat) :
    ∃ u', u.startStream c context line = .ok u' := by
  have hpos : 0 < u.streams.length := h.width ▸ Nat.pos_of_ne_zero c.streams_ne
  have hleast : u.leastRecentlyUsed < u.streams.length := by
    have hne : u.streams.toFinset.Nonempty :=
      ⟨u.streams[0], List.mem_toFinset.mpr (List.getElem_mem hpos)⟩
    obtain ⟨s, hs, hmin⟩ := Finset.exists_min_image u.streams.toFinset StreamState.lastUse hne
    apply List.findIdx_lt_length_of_exists
    refine ⟨s, List.mem_toFinset.mp hs, List.all_eq_true.mpr fun t ht => ?_⟩
    exact decide_eq_true (hmin t (List.mem_toFinset.mpr ht))
  have hindex : (u.streams.findIdx? (fun s => !s.valid)).getD u.leastRecentlyUsed <
      u.streams.length := by
    cases htarget : u.streams.findIdx? (fun s => !s.valid) with
    | none => exact hleast
    | some i => exact (List.findIdx?_eq_some_iff_getElem.mp htarget).1
  have hs := List.getElem?_eq_getElem hindex
  obtain ⟨s', hs'⟩ :=
    StreamState.refillWindow_isOk (h.restarted context line (u.clock + 1) hs).1 hdepth
  refine ⟨{ u with
    streams := u.streams.set ((u.streams.findIdx? (fun s => !s.valid)).getD u.leastRecentlyUsed) s'
    clock := u.clock + 1 }, ?_⟩
  unfold InstructionStreamBuffer.startStream
  dsimp only
  rw [hs]
  dsimp only
  rw [hs']
  rfl

/-- Every call returns when the 32-bit distance can pass the depth. -/
theorem stream_call_returns {h : StreamHistory}
    (hreach : Reaches (StreamHistory.step c) (fun _ _ => True) (.init c) h)
    (hdepth : c.depth < 2 ^ 32 - 1) (call : StreamCall) : ∃ h', h.step c call = .ok h' := by
  have htracks := tracks_of_reaches hreach
  cases call with
  | observeDemand context address miss =>
    have hbase : Tracks c (h.buffer.emplaceBaseLine context (c.lineAddress address))
        (unanswered h.log) := htracks.of_streams (emplaceBaseLine_streams _ _ _)
    have hobserve : ∃ r, h.buffer.observeDemand c context address miss = .ok r := by
      unfold InstructionStreamBuffer.observeDemand
      dsimp only
      split
      · rename_i i s e htracking
        obtain ⟨hs, hvalid, -, hline⟩ := tracking_some htracking
        obtain ⟨s', hs'⟩ := StreamState.refillWindow_isOk
          ((hbase.windowed hs).fillable_demand hvalid hline) hdepth
        unfold StreamState.demand at hs'
        exact ⟨_, by rw [hs']; rfl⟩
      · cases miss with
        | false => exact ⟨_, rfl⟩
        | true =>
          obtain ⟨v, hv⟩ := hbase.startStream_isOk hdepth context (c.lineAddress address)
          exact ⟨_, by rw [if_pos rfl, hv]; rfl⟩
    obtain ⟨r, hr⟩ := hobserve
    exact ⟨⟨r.1, h.log⟩, by simp only [StreamHistory.step, hr]; rfl⟩
  | issue => exact ⟨_, rfl⟩
  | retry r => exact ⟨_, rfl⟩
  | markResident r => exact ⟨_, rfl⟩
  | fill r => exact ⟨_, rfl⟩
  | cancelContext context => exact ⟨_, rfl⟩
  | reset => exact ⟨_, rfl⟩

/-- The request is of an earlier generation or another context than its stream has, or its line
is not in the window. -/
def Outdated (c : StreamBufferConfig) (u : InstructionStreamBuffer) (r : PrefetchRequest) : Prop :=
  ∀ s, u.streams[r.stream]? = some s →
    r.generation < s.generation ∨ r.context ≠ s.context ∨ r.address ∉ c.lineWindow s.demandLine

theorem Tracks.respond_outdated {unanswered : List PrefetchRequest} {u : InstructionStreamBuffer}
    (h : Tracks c u unanswered) {r : PrefetchRequest} (hout : u.Outdated c r)
    (state : PrefetchState) : u.respond r state = u := by
  rcases h.respond_cases r state with ⟨heq, -⟩ | ⟨s, e, hs, hvalid, hfound, -, hr, -⟩
  · exact heq
  · have hgen := congrArg PrefetchRequest.generation hr
    have hctx := congrArg PrefetchRequest.context hr
    have haddr := congrArg PrefetchRequest.address hr
    have hahead := (h.windowed hs).ahead hvalid (List.mem_of_find?_eq_some hfound)
    rcases hout s hs with hlater | hother | hleft
    · exact (hlater.ne hgen).elim
    · exact (hother hctx).elim
    · exact (hleft (haddr ▸ hahead)).elim

/-- In every run the entries of a valid stream are the lines of its window, in increasing order;
an entry is in flight only for a request of its stream, generation, context and address that was
sent and not answered; no two such requests agree in stream, generation and address; and an
answer to an outdated request changes nothing. -/
theorem stream_window {h : StreamHistory}
    (hreach : Reaches (StreamHistory.step c) (fun _ _ => True) (.init c) h) :
    (∀ s ∈ h.buffer.streams, s.valid = true →
      s.entries.map StreamEntry.address = c.lineWindow s.demandLine ∧
        (s.entries.map StreamEntry.address).Pairwise (· < ·)) ∧
    (∀ i s, h.buffer.streams[i]? = some s → ∀ e ∈ s.entries, e.state = .inflight →
      ⟨e.address, s.context, s.generation, i⟩ ∈ unanswered h.log) ∧
    ((unanswered h.log).map PrefetchRequest.key).Nodup ∧
    ∀ r, h.buffer.Outdated c r →
      h.buffer.retry r = h.buffer ∧ h.buffer.markResident r = h.buffer ∧
        h.buffer.fill r = h.buffer := by
  have htracks := tracks_of_reaches hreach
  refine ⟨?_, fun i s hs => htracks.owned hs, htracks.single, ?_⟩
  · intro s hs hvalid
    obtain ⟨i, hi⟩ := List.getElem?_of_mem hs
    have hwindow := (htracks.windowed hi).window hvalid
    rw [hwindow]
    exact ⟨rfl, c.lineWindow_pairwise _⟩
  · intro r hout
    exact ⟨htracks.respond_outdated hout _, htracks.respond_outdated hout _,
      htracks.respond_outdated hout _⟩

/-- The calls of the witness: a demand inside the window passes a line in flight, and the late
answer comes twice. -/
theorem stream_window_overtaken :
    ∃ c : StreamBufferConfig, ∃ h : StreamHistory, h.buffer.streams.any (·.valid) = true ∧
      ((∀ s ∈ h.buffer.streams, s.valid = true →
        s.entries.map StreamEntry.address = c.lineWindow s.demandLine ∧
          (s.entries.map StreamEntry.address).Pairwise (· < ·)) ∧
      (∀ i s, h.buffer.streams[i]? = some s → ∀ e ∈ s.entries, e.state = .inflight →
        ⟨e.address, s.context, s.generation, i⟩ ∈ unanswered h.log) ∧
      ((unanswered h.log).map PrefetchRequest.key).Nodup ∧
      ∀ r, h.buffer.Outdated c r →
        h.buffer.retry r = h.buffer ∧ h.buffer.markResident r = h.buffer ∧
          h.buffer.fill r = h.buffer) := by
  have hrun : (runAllowed (StreamHistory.step ⟨128, 1, 2, 1, 0, by decide, by decide, by decide,
      by decide, by decide⟩) (fun _ _ => True) (.init ⟨128, 1, 2, 1, 0, by decide, by decide,
      by decide, by decide, by decide⟩)
      [.observeDemand 5 0x1000 true, .issue, .observeDemand 5 0x1080 true,
        .fill ⟨0x1080, 5, 1, 0⟩, .fill ⟨0x1080, 5, 1, 0⟩, .issue]).any
      (fun h => h.buffer.streams.any (·.valid)) = true := by decide +kernel
  obtain ⟨h, hh, hvalid⟩ := (Option.any_eq_true _ _).mp hrun
  exact ⟨_, h, hvalid, stream_window (Reaches.of_runAllowed .refl hh)⟩

end InstructionStreamBuffer

end FlashGpuSim
