import Mathlib.Tactic

/-!
A map kept in a search tree whose order is a parameter. A lookup descends to the first key that
does not come before the one it looks for, an insertion to a leaf, and the tree may change its
shape after each insertion. Where the order is a strict total one on the keys that are used, the
tree is a map, whatever its shape.
-/

namespace Lib

universe u v

/-- No two keys come before each other, and different keys do not come at the same place. -/
structure StrictTotalOn {κ : Type u} (before : κ → κ → Bool) (keys : Set κ) : Prop where
  irrefl : ∀ a ∈ keys, before a a = false
  asymm : ∀ a ∈ keys, ∀ b ∈ keys, before a b = true → before b a = false
  trans : ∀ a ∈ keys, ∀ b ∈ keys, ∀ c ∈ keys,
    before a b = true → before b c = true → before a c = true
  total : ∀ a ∈ keys, ∀ b ∈ keys, before a b = false → before b a = false → a = b

inductive SearchTree (κ : Type u) (β : Type v)
  | leaf
  | node (left : SearchTree κ β) (key : κ) (value : β) (right : SearchTree κ β)
  deriving DecidableEq, Repr

namespace SearchTree

variable {κ : Type u} {β : Type v}

/-- The entries in order. -/
def entries : SearchTree κ β → List (κ × β)
  | leaf => []
  | node left key value right => left.entries ++ (key, value) :: right.entries

/-- The first entry that does not come before the key. -/
def lowerBound (before : κ → κ → Bool) (k : κ) : SearchTree κ β → Option (κ × β)
  | leaf => none
  | node left key value right =>
    if before key k then lowerBound before k right
    else (lowerBound before k left).or (some (key, value))

def find (before : κ → κ → Bool) (k : κ) (t : SearchTree κ β) : Option β :=
  match t.lowerBound before k with
  | some (key, value) => if before k key then none else some value
  | none => none

/-- A new leaf. -/
def insert (before : κ → κ → Bool) (k : κ) (v : β) : SearchTree κ β → SearchTree κ β
  | leaf => node leaf k v leaf
  | node left key value right =>
    if before k key then node (insert before k v left) key value right
    else node left key value (insert before k v right)

/-- The value that a lookup finds changes. -/
def modify (before : κ → κ → Bool) (k : κ) (f : β → β) : SearchTree κ β → SearchTree κ β
  | leaf => leaf
  | node left key value right =>
    if before key k then node left key value (modify before k f right)
    else if (left.lowerBound before k).isSome then
      node (modify before k f left) key value right
    else if before k key then node left key value right
    else node left key (f value) right

/-- The keys are in order. -/
structure Ordered (before : κ → κ → Bool) (keys : Set κ) (t : SearchTree κ β) : Prop where
  mem : ∀ e ∈ t.entries, e.1 ∈ keys
  sorted : t.entries.Pairwise fun a b => before a.1 b.1 = true

variable {before : κ → κ → Bool} {keys : Set κ} {t t' left right : SearchTree κ β} {k j : κ}
  {value v : β} {f : β → β}

theorem ordered_leaf : Ordered before keys (leaf : SearchTree κ β) :=
  ⟨fun _ h => (nomatch h), .nil⟩

theorem ordered_node : Ordered before keys (node left k value right) ↔
    Ordered before keys left ∧ k ∈ keys ∧ Ordered before keys right ∧
      (∀ e ∈ left.entries, before e.1 k = true) ∧
      (∀ e ∈ right.entries, before k e.1 = true) ∧
      ∀ e ∈ left.entries, ∀ e' ∈ right.entries, before e.1 e'.1 = true := by
  constructor
  · rintro ⟨hmem, hsorted⟩
    obtain ⟨hleft, hright, hcross⟩ := List.pairwise_append.mp hsorted
    obtain ⟨hroot, hright⟩ := List.pairwise_cons.mp hright
    refine ⟨⟨fun e he => hmem e (List.mem_append_left _ he), hleft⟩,
      hmem (k, value) (List.mem_append_right _ List.mem_cons_self),
      ⟨fun e he => hmem e (List.mem_append_right _ (List.mem_cons_of_mem _ he)), hright⟩,
      fun e he => hcross e he (k, value) List.mem_cons_self, hroot,
      fun e he e' he' => hcross e he e' (List.mem_cons_of_mem _ he')⟩
  · rintro ⟨hleft, hk, hright, hbelow, habove, hcross⟩
    constructor
    · intro e he
      rcases List.mem_append.mp he with he | he
      · exact hleft.mem e he
      · rcases List.mem_cons.mp he with rfl | he
        · exact hk
        · exact hright.mem e he
    · refine List.pairwise_append.mpr ⟨hleft.sorted,
        List.pairwise_cons.mpr ⟨habove, hright.sorted⟩, fun e he e' he' => ?_⟩
      rcases List.mem_cons.mp he' with rfl | he'
      · exact hbelow e he
      · exact hcross e he e' he'

/-- The descent ends at the first entry that does not come before the key. -/
theorem lowerBound_eq (hord : StrictTotalOn before keys) (h : t.Ordered before keys)
    (hk : k ∈ keys) : t.lowerBound before k = t.entries.find? fun e => !before e.1 k := by
  induction t with
  | leaf => rfl
  | node left key value right ihl ihr =>
    obtain ⟨hleft, hkey, hright, hbelow, -, -⟩ := ordered_node.mp h
    unfold lowerBound entries
    rw [List.find?_append, List.find?_cons]
    cases hb : before key k with
    | true =>
      have hnone : (left.entries.find? fun e => !before e.1 k) = none := by
        apply List.find?_eq_none.mpr
        intro e he
        rw [hord.trans e.1 (hleft.mem e he) key hkey k hk (hbelow e he) hb]
        simp
      rw [if_pos rfl, ihr hright, hnone]
      rfl
    | false =>
      rw [if_neg (by simp), ihl hleft]
      rfl

/-- A lookup finds the entry of its key. -/
theorem find_eq_some_iff (hord : StrictTotalOn before keys) (h : t.Ordered before keys)
    (hk : k ∈ keys) : t.find before k = some v ↔ (k, v) ∈ t.entries := by
  unfold find
  rw [lowerBound_eq hord h hk]
  constructor
  · intro hfind
    split at hfind
    · rename_i key value hbound
      have hmem := List.mem_of_find?_eq_some hbound
      have hnot := List.find?_some hbound
      rw [Bool.not_eq_true'] at hnot
      split at hfind
      · cases hfind
      · rename_i hnot'
        rw [Bool.not_eq_true] at hnot'
        cases hfind
        rw [hord.total k hk key (h.mem _ hmem) hnot' hnot]
        exact hmem
    · cases hfind
  · intro hmem
    -- everything in front of the entry comes before its key
    obtain ⟨front, rest, hsplit⟩ := List.append_of_mem hmem
    have hsorted := h.sorted
    rw [hsplit] at hsorted
    have hfront : (front.find? fun e => !before e.1 k) = none := by
      apply List.find?_eq_none.mpr
      intro e he
      rw [(List.pairwise_append.mp hsorted).2.2 e he (k, v) List.mem_cons_self]
      simp
    rw [hsplit, List.find?_append, hfront, List.find?_cons, hord.irrefl k hk]
    simp [hord.irrefl k hk]

theorem find_congr (hord : StrictTotalOn before keys) (h : t.Ordered before keys)
    (h' : t'.Ordered before keys) (hk : k ∈ keys)
    (hiff : ∀ v, (k, v) ∈ t'.entries ↔ (k, v) ∈ t.entries) :
    t'.find before k = t.find before k := by
  apply Option.ext
  intro v
  rw [find_eq_some_iff hord h' hk, find_eq_some_iff hord h hk]
  exact hiff v

/-! ### Insertion -/

theorem entries_insert (before : κ → κ → Bool) (k : κ) (v : β) (t : SearchTree κ β) :
    (t.insert before k v).entries.Perm ((k, v) :: t.entries) := by
  induction t with
  | leaf => exact .refl _
  | node left key value right ihl ihr =>
    unfold insert
    split
    · exact ihl.append_right _
    · refine (((ihr.cons (key, value)).append_left left.entries)).trans ?_
      refine ((List.Perm.swap (k, v) (key, value) right.entries).append_left
        left.entries).trans ?_
      exact List.perm_middle

theorem ordered_insert (hord : StrictTotalOn before keys) (h : t.Ordered before keys)
    (hk : k ∈ keys) (hnew : ∀ e ∈ t.entries, e.1 ≠ k) :
    (t.insert before k v).Ordered before keys := by
  induction t with
  | leaf => exact ordered_node.mpr ⟨ordered_leaf, hk, ordered_leaf, nofun, nofun, nofun⟩
  | node left key value right ihl ihr =>
    obtain ⟨hleft, hkey, hright, hbelow, habove, hcross⟩ := ordered_node.mp h
    have hne : key ≠ k :=
      hnew (key, value) (List.mem_append_right _ List.mem_cons_self)
    have hmem : ∀ {t : SearchTree κ β} {e}, e ∈ (t.insert before k v).entries →
        e = (k, v) ∨ e ∈ t.entries :=
      fun he => List.mem_cons.mp ((entries_insert before k v _).mem_iff.mp he)
    unfold insert
    split
    · rename_i hb
      refine ordered_node.mpr ⟨ihl hleft fun e he => hnew e (List.mem_append_left _ he), hkey,
        hright, fun e he => ?_, habove, fun e he e' he' => ?_⟩
      · rcases hmem he with rfl | he
        · exact hb
        · exact hbelow e he
      · rcases hmem he with rfl | he
        · exact hord.trans k hk key hkey e'.1 (hright.mem e' he') hb (habove e' he')
        · exact hcross e he e' he'
    · rename_i hb
      rw [Bool.not_eq_true] at hb
      have hb' : before key k = true := by
        by_contra hnot
        rw [Bool.not_eq_true] at hnot
        exact hne (hord.total key hkey k hk hnot hb)
      refine ordered_node.mpr ⟨hleft, hkey, ihr hright fun e he =>
        hnew e (List.mem_append_right _ (List.mem_cons_of_mem _ he)), hbelow, fun e he => ?_,
        fun e he e' he' => ?_⟩
      · rcases hmem he with rfl | he
        · exact hb'
        · exact habove e he
      · rcases hmem he' with rfl | he'
        · exact hord.trans e.1 (hleft.mem e he) key hkey k hk (hbelow e he) hb'
        · exact hcross e he e' he'

section lookups

variable [DecidableEq κ]

/-- A new key is looked up, and the others as before. -/
theorem find_insert (hord : StrictTotalOn before keys) (h : t.Ordered before keys)
    (hk : k ∈ keys) (hnew : ∀ e ∈ t.entries, e.1 ≠ k) (hj : j ∈ keys) :
    (t.insert before k v).find before j = if j = k then some v else t.find before j := by
  have hins : (t.insert before k v).Ordered before keys := ordered_insert hord h hk hnew
  split
  · rename_i heq
    subst heq
    exact (find_eq_some_iff hord hins hj).mpr
      ((entries_insert before j v t).mem_iff.mpr List.mem_cons_self)
  · rename_i hne
    refine find_congr hord h hins hj fun w => ?_
    rw [(entries_insert before k v t).mem_iff, List.mem_cons]
    exact or_iff_right fun heq => hne (congrArg Prod.fst heq)

/-! ### A change of a value -/

/-- The value of a key changes. -/
def changed (k : κ) (f : β → β) (e : κ × β) : κ × β := (e.1, if e.1 = k then f e.2 else e.2)

theorem map_changed_of_ne {l : List (κ × β)} (h : ∀ e ∈ l, e.1 ≠ k) : l.map (changed k f) = l := by
  refine (List.map_congr_left fun e he => ?_).trans (List.map_id l)
  unfold changed
  rw [if_neg (h e he)]
  rfl

theorem entries_modify (hord : StrictTotalOn before keys) (h : t.Ordered before keys)
    (hk : k ∈ keys) : (t.modify before k f).entries = t.entries.map (changed k f) := by
  induction t with
  | leaf => rfl
  | node left key value right ihl ihr =>
    obtain ⟨hleft, hkey, hright, hbelow, habove, hcross⟩ := ordered_node.mp h
    have hapart : ∀ {a b}, before a b = true → a ∈ keys → a ≠ b := by
      rintro a b hab ha rfl
      rw [hord.irrefl a ha] at hab
      cases hab
    unfold modify
    split
    · rename_i hb
      have hne : ∀ e ∈ left.entries, e.1 ≠ k := fun e he =>
        hapart (hord.trans e.1 (hleft.mem e he) key hkey k hk (hbelow e he) hb) (hleft.mem e he)
      show left.entries ++ (key, value) :: (modify before k f right).entries = _
      rw [ihr hright, entries, List.map_append, List.map_cons, map_changed_of_ne hne]
      unfold changed
      rw [if_neg (hapart hb hkey)]
    · rename_i hb
      rw [Bool.not_eq_true] at hb
      cases hbound : left.lowerBound before k with
      | some e =>
        rw [lowerBound_eq hord hleft hk] at hbound
        have hmem := List.mem_of_find?_eq_some hbound
        have hnot := List.find?_some hbound
        rw [Bool.not_eq_true'] at hnot
        have hne : ∀ {b}, before e.1 b = true → b ≠ k := by
          intro b hb heq
          rw [heq, hnot] at hb
          cases hb
        rw [Option.isSome_some, if_pos rfl]
        show (modify before k f left).entries ++ (key, value) :: right.entries = _
        rw [ihl hleft, entries, List.map_append, List.map_cons,
          map_changed_of_ne fun e' he' => hne (hcross e hmem e' he')]
        unfold changed
        rw [if_neg (hne (hbelow e hmem))]
      | none =>
        rw [lowerBound_eq hord hleft hk] at hbound
        have hall := List.find?_eq_none.mp hbound
        have hne : ∀ e ∈ left.entries, e.1 ≠ k := by
          intro e he
          have hlt := hall e he
          rw [Bool.not_eq_true, Bool.not_eq_false'] at hlt
          exact hapart hlt (hleft.mem e he)
        rw [if_neg (by simp)]
        split
        · rename_i hb'
          rw [entries, List.map_append, List.map_cons, map_changed_of_ne hne,
            map_changed_of_ne fun e he => (hapart (hord.trans k hk key hkey e.1
              (hright.mem e he) hb' (habove e he)) hk).symm]
          unfold changed
          rw [if_neg (hapart hb' hk).symm]
        · rename_i hb'
          rw [Bool.not_eq_true] at hb'
          obtain rfl := hord.total key hkey k hk hb hb'
          show left.entries ++ (key, f value) :: right.entries = _
          rw [entries, List.map_append, List.map_cons, map_changed_of_ne hne,
            map_changed_of_ne fun e he => (hapart (habove e he) hkey).symm]
          unfold changed
          rw [if_pos rfl]

theorem ordered_modify (hord : StrictTotalOn before keys) (h : t.Ordered before keys)
    (hk : k ∈ keys) : (t.modify before k f).Ordered before keys := by
  constructor
  · intro e he
    rw [entries_modify hord h hk] at he
    obtain ⟨e', he', rfl⟩ := List.mem_map.mp he
    exact h.mem e' he'
  · rw [entries_modify hord h hk]
    exact List.pairwise_map.mpr h.sorted

/-- The value of the key is looked up changed, and the others as before. -/
theorem find_modify (hord : StrictTotalOn before keys) (h : t.Ordered before keys)
    (hk : k ∈ keys) (hj : j ∈ keys) : (t.modify before k f).find before j =
      if j = k then (t.find before j).map f else t.find before j := by
  apply Option.ext
  intro w
  rw [find_eq_some_iff hord (ordered_modify hord h hk) hj, entries_modify hord h hk, List.mem_map]
  split
  · rename_i heq
    subst heq
    rw [Option.map_eq_some_iff]
    constructor
    · rintro ⟨⟨key, value⟩, he, heq⟩
      unfold changed at heq
      obtain ⟨rfl, hvalue⟩ := Prod.mk.inj heq
      rw [if_pos rfl] at hvalue
      exact ⟨value, (find_eq_some_iff hord h hj).mpr he, hvalue⟩
    · rintro ⟨value, he, rfl⟩
      refine ⟨(j, value), (find_eq_some_iff hord h hj).mp he, ?_⟩
      unfold changed
      rw [if_pos rfl]
  · rename_i hne
    rw [find_eq_some_iff hord h hj]
    constructor
    · rintro ⟨⟨key, value⟩, he, heq⟩
      unfold changed at heq
      obtain ⟨rfl, hvalue⟩ := Prod.mk.inj heq
      rw [if_neg hne] at hvalue
      exact hvalue ▸ he
    · intro he
      refine ⟨(j, w), he, ?_⟩
      unfold changed
      rw [if_neg hne]

end lookups

end SearchTree

end Lib
