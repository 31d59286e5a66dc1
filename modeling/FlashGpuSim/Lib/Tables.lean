import Mathlib.Data.List.AList

/-!
Tables with natural keys, as association lists without duplicate keys. The lemmas
say what an insertion and a deletion do to every lookup.
-/

namespace Lib

universe u

abbrev Table (β : Type u) := AList (fun _ : Nat => β)

namespace Table

variable {β : Type u} {a b : Nat} {x y : β} {s : Table β}

def size (s : Table β) : Nat := s.entries.length

theorem lookup_insert (a b : Nat) (x : β) (s : Table β) :
    (s.insert b x).lookup a = if a = b then some x else s.lookup a := by
  split
  · rename_i h
    subst h
    exact AList.lookup_insert s
  · rename_i h
    exact AList.lookup_insert_ne h

theorem lookup_erase (a b : Nat) (s : Table β) :
    (s.erase b).lookup a = if a = b then none else s.lookup a := by
  split
  · rename_i h
    subst h
    exact AList.lookup_erase a s
  · rename_i h
    exact AList.lookup_erase_ne h

theorem lookup_empty (a : Nat) : (∅ : Table β).lookup a = none := rfl

theorem size_eq_keys (s : Table β) : s.size = s.keys.length := by
  simp [size, AList.keys, List.keys]

theorem size_erase_le (a : Nat) (s : Table β) : size (s.erase a) ≤ s.size := by
  rw [size_eq_keys, size_eq_keys, AList.keys_erase]
  exact List.length_erase_le

/-- A new entry takes one more place. -/
theorem size_insert_le (a : Nat) (x : β) (s : Table β) : size (s.insert a x) ≤ s.size + 1 := by
  rw [size_eq_keys, size_eq_keys, AList.keys_insert, List.length_cons]
  have hle := List.length_erase_le (a := a) (l := s.keys)
  omega

/-- An overwritten entry takes no further place. -/
theorem size_insert_present (h : s.lookup a = some y) (x : β) :
    size (s.insert a x) = s.size := by
  have hmem : a ∈ s.keys := AList.mem_keys.mp (AList.lookup_isSome.mp (by rw [h]; rfl))
  rw [size_eq_keys, size_eq_keys, AList.keys_insert, List.length_cons,
    List.length_erase_of_mem hmem]
  have hpos := List.length_pos_of_mem hmem
  omega

/-- A new entry takes exactly one place. -/
theorem size_insert_new (h : s.lookup a = none) (x : β) : size (s.insert a x) = s.size + 1 := by
  have hmem : a ∉ s.keys := fun hmem => AList.lookup_eq_none.mp h (AList.mem_keys.mpr hmem)
  rw [size_eq_keys, size_eq_keys, AList.keys_insert, List.length_cons,
    List.erase_of_not_mem hmem]

/-- A deleted entry frees its place. -/
theorem size_erase_present (h : s.lookup a = some y) : size (s.erase a) + 1 = s.size := by
  have hmem : a ∈ s.keys := AList.mem_keys.mp (AList.lookup_isSome.mp (by rw [h]; rfl))
  rw [size_eq_keys, size_eq_keys, AList.keys_erase, List.length_erase_of_mem hmem]
  have hpos := List.length_pos_of_mem hmem
  omega

theorem eq_empty_of_lookup (h : ∀ a, s.lookup a = none) : s = ∅ := by
  apply AList.ext
  have hkeys : s.keys = [] := by
    refine List.eq_nil_iff_forall_not_mem.mpr (fun a ha => ?_)
    exact AList.lookup_eq_none.mp (h a) (AList.mem_keys.mpr ha)
  simpa [AList.keys, List.keys] using hkeys

theorem lookup_of_size_zero (h : s.size = 0) (a : Nat) : s.lookup a = none := by
  have hs : s = ∅ := AList.ext (List.length_eq_zero_iff.mp h)
  rw [hs]
  rfl

/-- A test of some entry is a test of some lookup. -/
theorem any_entries (s : Table β) (test : β → Bool) :
    s.entries.any (fun kv => test kv.2) = true ↔ ∃ a x, s.lookup a = some x ∧ test x = true := by
  rw [List.any_eq_true]
  constructor
  · rintro ⟨⟨a, x⟩, hmem, htest⟩
    exact ⟨a, x, AList.mem_lookup_iff.mpr hmem, htest⟩
  · rintro ⟨a, x, hlook, htest⟩
    exact ⟨⟨a, x⟩, AList.mem_lookup_iff.mp hlook, htest⟩

end Table

end Lib
