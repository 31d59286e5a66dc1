import FlashGpuSim.Lib.Gf2
import Mathlib.Logic.Equiv.Fin.Basic
import Mathlib.Data.Fintype.EquivFin

/-!
The IPOLY hash of addresses to banks. Each bit of the bank is a sum over two elements of some
address bits and one bit of the index, so that the hash is a linear map plus the index, and a
stride is free of conflicts when the columns that it runs through are independent.
-/

namespace FlashGpuSim

open Lib Gf2

/-- The address bits in the equation of each bit of the bank, for each supported number of
banks. -/
def ipolyEquations : Nat → Option (List (List Nat))
  | 16 => some [
    [11, 10, 9, 8, 6, 4, 3, 0],
    [12, 8, 7, 6, 5, 3, 1, 0],
    [9, 8, 7, 6, 4, 2, 1],
    [10, 9, 8, 7, 5, 3, 2]]
  | 32 => some [
    [13, 12, 11, 10, 9, 6, 5, 3, 0],
    [14, 13, 12, 11, 10, 7, 6, 4, 1],
    [14, 10, 9, 8, 7, 6, 3, 2, 0],
    [11, 10, 9, 8, 7, 4, 3, 1],
    [12, 11, 10, 9, 8, 5, 4, 2]]
  | 64 => some [
    [18, 17, 16, 15, 12, 10, 6, 5, 0],
    [15, 13, 12, 11, 10, 7, 5, 1, 0],
    [16, 14, 13, 12, 11, 8, 6, 2, 1],
    [17, 15, 14, 13, 12, 9, 7, 3, 2],
    [18, 16, 15, 14, 13, 10, 8, 4, 3],
    [17, 16, 15, 14, 11, 9, 5, 4]]
  | 128 => some [
    [12, 11, 10, 9, 8, 7, 6, 3, 0],
    [13, 12, 11, 10, 9, 8, 7, 4, 1],
    [14, 13, 12, 11, 10, 9, 8, 5, 2],
    [15, 14, 13, 12, 11, 10, 9, 6, 3, 0],
    [16, 15, 14, 13, 12, 11, 10, 7, 4, 1],
    [17, 16, 15, 14, 13, 12, 11, 8, 5, 2],
    [18, 17, 16, 15, 14, 13, 12, 9, 6, 3]]
  | 256 => some [
    [19, 18, 17, 15, 13, 12, 10, 7, 4, 3, 2, 0],
    [20, 19, 18, 16, 14, 13, 11, 8, 5, 4, 3, 1],
    [21, 20, 19, 17, 15, 14, 12, 9, 6, 5, 4, 2],
    [22, 21, 20, 18, 16, 15, 13, 10, 7, 6, 5, 3],
    [23, 22, 21, 19, 17, 16, 14, 11, 8, 7, 6, 4, 0],
    [24, 23, 22, 20, 18, 17, 15, 12, 9, 8, 7, 5, 1],
    [25, 24, 23, 21, 19, 18, 16, 13, 10, 9, 8, 6, 2],
    [26, 25, 24, 22, 20, 19, 17, 14, 11, 10, 9, 7, 3]]
  | 512 => some [
    [25, 23, 22, 21, 19, 17, 15, 12, 8, 4, 0],
    [26, 24, 23, 22, 20, 18, 16, 13, 9, 5, 1],
    [27, 25, 24, 23, 21, 19, 17, 14, 10, 6, 2],
    [28, 26, 25, 24, 22, 20, 18, 15, 11, 7, 3],
    [29, 27, 26, 25, 23, 21, 19, 16, 12, 8, 4, 0],
    [30, 28, 27, 26, 24, 22, 20, 17, 13, 9, 5, 1],
    [31, 29, 28, 27, 25, 23, 21, 18, 14, 10, 6, 2],
    [32, 30, 29, 28, 26, 24, 22, 19, 15, 11, 7, 3],
    [33, 31, 30, 29, 27, 25, 23, 20, 16, 12, 8, 4]]
  | 1024 => some [
    [30, 28, 27, 26, 24, 22, 20, 18, 16, 12, 9, 3, 0],
    [31, 29, 28, 27, 25, 23, 21, 19, 17, 13, 10, 4, 1],
    [32, 30, 29, 28, 26, 24, 22, 20, 18, 14, 11, 5, 2],
    [33, 31, 30, 29, 27, 25, 23, 21, 19, 15, 12, 6, 3, 0],
    [34, 32, 31, 30, 28, 26, 24, 22, 20, 16, 13, 7, 4, 1],
    [35, 33, 32, 31, 29, 27, 25, 23, 21, 17, 14, 8, 5, 2],
    [36, 34, 33, 32, 30, 28, 26, 24, 22, 18, 15, 9, 6, 3],
    [37, 35, 34, 33, 31, 29, 27, 25, 23, 19, 16, 10, 7, 4],
    [38, 36, 35, 34, 32, 30, 28, 26, 24, 20, 17, 11, 8, 5],
    [39, 37, 36, 35, 33, 31, 29, 27, 25, 21, 18, 12, 9, 6]]
  | _ => none

/-- The sum of some bits of `a`. -/
def xorBits (terms : List Nat) (a : Nat) : Bool := terms.foldr (fun t x => a.testBit t ^^ x) false

/-- `to_ulong` of a bit set. -/
def toUlong (bits : List Bool) : Nat := bits.foldr (fun b n => 2 * n + b.toNat) 0

/-- `ipoly_hash_function`; other numbers of banks end at an assertion. -/
def ipolyHashFunction (higherBits index bankSetNum : Nat) : Option Nat :=
  (ipolyEquations bankSetNum).map fun rows =>
    toUlong (rows.zipIdx.map fun (terms, i) => xorBits terms higherBits ^^ index.testBit i)

/-- The part of the hash that depends on the address. -/
def hashBits (rows : List (List Nat)) (a : Nat) : Nat := toUlong (rows.map fun terms => xorBits terms a)

/-- `h` without `d` bits from bit `k` on. -/
def clearBits (h k d : Nat) : Nat := h ^^^ ((h >>> k) % 2 ^ d) <<< k

/-- `h` with these bits replaced by `j`. -/
def replaceBits (h k d j : Nat) : Nat := clearBits h k d ^^^ j <<< k

/-- How many address bits the equations use. -/
def addressBits (rows : List (List Nat)) : Nat := rows.flatten.foldr (fun t n => max (t + 1) n) 0

/-- The columns of the hash matrix that belong to `d` address bits from bit `k` on. -/
def hashColumns (rows : List (List Nat)) (k d : Nat) : List Nat :=
  (List.range' k d).map fun t => hashBits rows (2 ^ t)

/-- Where the equations map the addresses of a stride to fewer banks than there are. -/
def conflictingBits : Nat → List Nat
  | 128 => [0, 1, 2, 3]
  | 256 => [1, 2, 3, 4, 5, 7, 8, 9, 13, 14, 16, 17, 18]
  | 512 => [0, 1, 2, 3, 4, 5, 6, 7, 8, 9, 10, 21, 22, 23]
  | 1024 => [0, 1, 2, 4, 5, 6, 7, 8, 9, 17, 18, 19, 20, 21, 22, 23, 24]
  | _ => []

variable {rows : List (List Nat)} {terms : List Nat} {a b h i j k d n : Nat} {bits : List Bool}

/-! ### The hash as a linear map -/

theorem testBit_toUlong : (toUlong bits).testBit i = bits.getD i false := by
  induction bits generalizing i with
  | nil => simp [toUlong]
  | cons x bits ih =>
    have hstep : toUlong (x :: bits) = 2 * toUlong bits + x.toNat := rfl
    cases i with
    | zero =>
      rw [hstep, Nat.testBit_zero, List.getD_cons_zero]
      cases x
      · simp
      · simp
    | succ i =>
      have hhalf : (2 * toUlong bits + x.toNat) / 2 = toUlong bits := by
        have hx := Bool.toNat_le x
        omega
      rw [hstep, Nat.testBit_succ, hhalf, ih, List.getD_cons_succ]

theorem toUlong_lt : toUlong bits < 2 ^ bits.length := by
  induction bits with
  | nil => simp [toUlong]
  | cons x bits ih =>
    have hstep : toUlong (x :: bits) = 2 * toUlong bits + x.toNat := rfl
    have hx := Bool.toNat_le x
    rw [hstep, List.length_cons, Nat.pow_succ]
    omega

theorem xorBits_xor : xorBits terms (a ^^^ b) = (xorBits terms a ^^ xorBits terms b) := by
  induction terms with
  | nil => rfl
  | cons t terms ih =>
    have hstep : ∀ a, xorBits (t :: terms) a = (a.testBit t ^^ xorBits terms a) := fun _ => rfl
    rw [hstep, hstep, hstep, ih, Nat.testBit_xor, Bool.xor_assoc, Bool.xor_assoc,
      Bool.xor_left_comm (b.testBit t)]

theorem linear_hashBits (rows : List (List Nat)) : Linear (hashBits rows) := by
  intro x y
  apply Nat.eq_of_testBit_eq
  intro i
  unfold hashBits
  rw [Nat.testBit_xor, testBit_toUlong, testBit_toUlong, testBit_toUlong]
  induction rows generalizing i with
  | nil => simp
  | cons terms rows ih =>
    cases i with
    | zero => exact xorBits_xor
    | succ i => exact ih i

theorem hashBits_lt : hashBits rows a < 2 ^ rows.length := by
  have hlt := @toUlong_lt (rows.map fun terms => xorBits terms a)
  rwa [List.length_map] at hlt

/-- The hash adds the index to a linear map of the address. -/
theorem ipolyHashFunction_eq (hrows : ipolyEquations n = some rows) (index : Nat) :
    ipolyHashFunction a index n = some (hashBits rows a ^^^ index % 2 ^ rows.length) := by
  unfold ipolyHashFunction
  rw [hrows, Option.map_some]
  congr 1
  apply Nat.eq_of_testBit_eq
  intro i
  unfold hashBits
  rw [Nat.testBit_xor, testBit_toUlong, testBit_toUlong, Nat.testBit_mod_two_pow]
  simp only [List.getD_eq_getElem?_getD, List.getElem?_map, List.getElem?_zipIdx]
  rcases Nat.lt_or_ge i rows.length with hi | hi
  · rw [List.getElem?_eq_getElem hi]
    simp [hi]
  · rw [List.getElem?_eq_none hi]
    simp [Nat.not_lt.mpr hi]

/-! ### Strides -/

theorem hashBits_replaceBits (hj : j < 2 ^ d) : hashBits rows (replaceBits h k d j) =
    hashBits rows (clearBits h k d) ^^^ combine (hashColumns rows k d) j := by
  unfold replaceBits hashColumns
  rw [linear_hashBits rows, shiftLeft_eq_combine hj, (linear_hashBits rows).map_combine,
    List.map_map]
  rfl

/-- The equations give as many bits as the number of banks has, and their columns are dependent
exactly at the listed bits. -/
theorem equations_checked (hrows : ipolyEquations n = some rows) : n = 2 ^ rows.length ∧
    ∀ k < addressBits rows, k + rows.length ≤ addressBits rows →
      (Independent (hashColumns rows k rows.length) ↔ k ∉ conflictingBits n) := by
  unfold ipolyEquations at hrows
  split at hrows
  · cases hrows
    decide +kernel
  · cases hrows
    decide +kernel
  · cases hrows
    decide +kernel
  · cases hrows
    decide +kernel
  · cases hrows
    decide +kernel
  · cases hrows
    decide +kernel
  · cases hrows
    decide +kernel
  · cases hrows

/-- The hash of the addresses that differ in the bits from `k` on is a permutation of the
banks. -/
def ConflictFree (n h index k : Nat) : Prop :=
  ∃ e : Equiv.Perm (Fin n), ∀ j : Fin n,
    ipolyHashFunction (replaceBits h k n.log2 j) index n = some (e j).val

theorem conflictFree_iff (hrows : ipolyEquations n = some rows) (h index k : Nat) :
    ConflictFree n h index k ↔ Independent (hashColumns rows k rows.length) := by
  obtain ⟨rfl, -⟩ := equations_checked hrows
  unfold ConflictFree
  rw [Nat.log2_two_pow]
  generalize hd : rows.length = d at hrows
  have hlength : (hashColumns rows k d).length = d := by
    unfold hashColumns
    rw [List.length_map, List.length_range']
  have hhash : ∀ j : Fin (2 ^ d), ipolyHashFunction (replaceBits h k d j) index (2 ^ d) =
      some (hashBits rows (clearBits h k d) ^^^ combine (hashColumns rows k d) j ^^^
        index % 2 ^ d) := by
    intro j
    rw [ipolyHashFunction_eq hrows, hashBits_replaceBits j.isLt, hd]
  simp only [hhash, Option.some.injEq]
  constructor
  · rintro ⟨e, he⟩ j hj hzero
    rw [hlength] at hj
    have hsame : e ⟨j, hj⟩ = e 0 := by
      apply Fin.ext
      rw [← he, ← he, hzero, Fin.val_zero, combine_zero]
    exact congrArg Fin.val (e.injective hsame)
  · intro hindep
    have hlt : ∀ j : Fin (2 ^ d), hashBits rows (clearBits h k d) ^^^
        combine (hashColumns rows k d) j ^^^ index % 2 ^ d < 2 ^ d := by
      intro j
      rw [← hashBits_replaceBits j.isLt]
      apply Nat.xor_lt_two_pow _ (Nat.mod_lt _ (Nat.two_pow_pos d))
      exact hashBits_lt.trans_eq (congrArg (2 ^ ·) hd)
    have hinj : Function.Injective fun j : Fin (2 ^ d) => (⟨_, hlt j⟩ : Fin (2 ^ d)) := by
      intro i j hij
      have heq := Nat.xor_right_injective (Nat.xor_left_injective (congrArg Fin.val hij))
      apply Fin.ext
      apply hindep.injective _ _ heq
      · rw [hlength]
        exact i.isLt
      · rw [hlength]
        exact j.isLt
    exact ⟨Equiv.ofBijective _ (Finite.injective_iff_bijective.mp hinj), fun j => rfl⟩

/-- A stride is free of conflicts where its columns are independent, and for which strides that
is so does not depend on the address. -/
theorem ipoly_conflict_free (hrows : ipolyEquations n = some rows)
    (hk : k + n.log2 ≤ addressBits rows) (h index : Nat) :
    (ConflictFree n h index k ↔ k ∉ conflictingBits n) ∧
      (Independent (hashColumns rows k n.log2) ↔ k ∉ conflictingBits n) := by
  obtain ⟨hn, hchecked⟩ := equations_checked hrows
  have hlog : n.log2 = rows.length := by rw [hn, Nat.log2_two_pow]
  rw [hlog] at hk ⊢
  have hpos : 0 < rows.length := by
    by_contra hzero
    have hnil : rows = [] := List.eq_nil_of_length_eq_zero (by omega)
    rw [hnil] at hn
    rw [hn] at hrows
    cases hrows
  have hindep := hchecked k (by omega) hk
  exact ⟨(conflictFree_iff hrows h index k).trans hindep, hindep⟩

theorem ipoly_conflict_free_witness : ConflictFree 16 0x12345678 3 5 := by
  exact (@ipoly_conflict_free _ 5 16 rfl (by decide +kernel) 0x12345678 3).1.mpr (by decide)

/-- With 128 banks the addresses 0 and 18 fall on one bank. -/
theorem ipoly_conflict_free_counterexample :
    ¬ ∀ (n : Nat) (rows : List (List Nat)) (h index k : Nat), ipolyEquations n = some rows →
      k + n.log2 ≤ addressBits rows → ConflictFree n h index k := by
  intro hclaim
  obtain ⟨e, he⟩ := hclaim 128 _ 0 0 0 rfl (by decide +kernel)
  have h₀ : some (e 0).val = some 0 := (he 0).symm.trans (by decide +kernel)
  have h₁ : some (e 18).val = some 0 := (he 18).symm.trans (by decide +kernel)
  have hsame : e 0 = e 18 := Fin.ext (Option.some.inj (h₀.trans h₁.symm))
  exact absurd (e.injective hsame) (by decide)

end FlashGpuSim
