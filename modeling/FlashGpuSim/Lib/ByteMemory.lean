import FlashGpuSim.Lib.Cells
import Mathlib.Data.BitVec

/-!
Memories of bytes, and copies as lists of the cells they set. The last cell of an address decides
what is there.
-/

namespace Lib

abbrev ByteMemory := Nat → BitVec 8

namespace ByteMemory

/-- The bytes from an address on. -/
def read (m : ByteMemory) (addr : Nat) : Nat → BitVec 8 := fun k => m (addr + k)

def write (m : ByteMemory) (addr size : Nat) (data : Nat → BitVec 8) : ByteMemory :=
  fun a => if addr ≤ a ∧ a < addr + size then data (a - addr) else m a

/-- Set cells one after the other. -/
def setCells (m : ByteMemory) (cells : List (Nat × BitVec 8)) : ByteMemory :=
  cells.foldl (fun m c => Function.update m c.1 c.2) m

variable {m : ByteMemory} {cells more : List (Nat × BitVec 8)} {a : Nat} {b : BitVec 8}

@[simp] theorem setCells_nil : m.setCells [] = m := rfl

theorem setCells_append : m.setCells (cells ++ more) = (m.setCells cells).setCells more :=
  assign_append

theorem setCells_of_notMem (h : ∀ c ∈ cells, c.1 ≠ a) : m.setCells cells a = m a :=
  assign_of_notMem h

/-- The cells of an address that agree decide its byte. -/
theorem setCells_of_mem (hmem : (a, b) ∈ cells) (hagree : ∀ c ∈ cells, c.1 = a → c.2 = b) :
    m.setCells cells a = b :=
  assign_of_mem hmem hagree

theorem setCells_last (h : ∀ c ∈ more, c.1 ≠ a) : m.setCells (cells ++ (a, b) :: more) a = b :=
  assign_last h

/-- The cells that a write sets. -/
def writeCells (addr size : Nat) (data : Nat → BitVec 8) : List (Nat × BitVec 8) :=
  (List.range size).map fun k => (addr + k, data k)

theorem write_eq_setCells (addr size : Nat) (data : Nat → BitVec 8) :
    m.write addr size data = m.setCells (writeCells addr size data) := by
  funext x
  unfold write
  split
  · rename_i hin
    refine (setCells_of_mem ?_ ?_).symm
    · refine List.mem_map.mpr ⟨x - addr, List.mem_range.mpr (by omega), ?_⟩
      rw [Nat.add_sub_cancel' hin.1]
    · intro c hc haddr
      obtain ⟨k, _, rfl⟩ := List.mem_map.mp hc
      dsimp only at haddr ⊢
      rw [← haddr, Nat.add_sub_cancel_left]
  · rename_i hout
    refine (setCells_of_notMem ?_).symm
    intro c hc haddr
    obtain ⟨k, hk, rfl⟩ := List.mem_map.mp hc
    have hlt := List.mem_range.mp hk
    dsimp only at haddr
    omega

/-- Writes one after the other. -/
theorem foldl_setCells {ι : Type} (l : List ι) (cellsOf : ι → List (Nat × BitVec 8)) :
    l.foldl (fun m i => m.setCells (cellsOf i)) m = m.setCells (l.flatMap cellsOf) := by
  induction l generalizing m with
  | nil => rfl
  | cons i l ih =>
    rw [List.foldl_cons, ih, List.flatMap_cons, setCells_append]

/-- Steps that change the bytes of their own addresses, each with what it finds there. When no two
of them meet, each finds what was there at first. -/
theorem foldl_ownCells {ι : Type} {l : List ι} {cellsOf : ByteMemory → ι → List (Nat × BitVec 8)}
    {addrs : ι → List Nat} (haddrs : ∀ m, ∀ i ∈ l, (cellsOf m i).map Prod.fst = addrs i)
    (hown : ∀ i ∈ l, ∀ m m' : ByteMemory, (∀ a ∈ addrs i, m a = m' a) → cellsOf m i = cellsOf m' i)
    (happart : l.Pairwise fun i j => (addrs i).Disjoint (addrs j)) :
    l.foldl (fun m i => m.setCells (cellsOf m i)) m = m.setCells (l.flatMap (cellsOf m)) := by
  induction l generalizing m with
  | nil => rfl
  | cons i l ih =>
    obtain ⟨hfirst, hrest⟩ := List.pairwise_cons.mp happart
    have hsame : l.flatMap (cellsOf (m.setCells (cellsOf m i))) = l.flatMap (cellsOf m) := by
      apply List.flatMap_congr
      intro j hj
      apply hown j (List.mem_cons_of_mem _ hj)
      intro a ha
      apply setCells_of_notMem
      intro c hc heq
      have hmem : c.1 ∈ addrs i := by
        rw [← haddrs m i List.mem_cons_self]
        exact List.mem_map_of_mem hc
      rw [heq] at hmem
      exact hfirst j hj hmem ha
    rw [List.foldl_cons, ih (fun m j hj => haddrs m j (List.mem_cons_of_mem _ hj))
      (fun j hj => hown j (List.mem_cons_of_mem _ hj)) hrest, hsame, List.flatMap_cons,
      setCells_append]

end ByteMemory

/-- Numbers cut into pieces of a size. -/
theorem range_pieces {size : Nat} (hsize : 0 < size) (n : Nat) :
    List.range n = (List.range ((n + (size - 1)) / size)).flatMap fun j =>
      (List.range (min size (n - j * size))).map (j * size + ·) := by
  have hpart : ∀ c, List.range (min n (c * size)) = (List.range c).flatMap fun j =>
      (List.range (min size (n - j * size))).map (j * size + ·) := by
    intro c
    induction c with
    | zero => simp
    | succ c ih =>
      rw [List.range_succ, List.flatMap_append, ← ih, List.flatMap_singleton]
      rcases Nat.lt_or_ge n (c * size) with hlt | hge
      · have hnone : min size (n - c * size) = 0 := by omega
        have hmul : c * size ≤ (c + 1) * size := Nat.mul_le_mul_right _ (Nat.le_succ c)
        rw [hnone, Nat.min_eq_left (by omega), Nat.min_eq_left (by omega)]
        simp
      · have hsum : min n ((c + 1) * size) = c * size + min size (n - c * size) := by
          rw [Nat.succ_mul]
          omega
        rw [hsum, List.range_add, Nat.min_eq_right hge]
  have hceil : n ≤ (n + (size - 1)) / size * size := by
    have hsplit := Nat.div_add_mod' (n + (size - 1)) size
    have hlt := Nat.mod_lt (n + (size - 1)) hsize
    omega
  rw [← hpart, Nat.min_eq_left hceil]

/-- The number that the first bytes stand for, the lowest byte first. -/
def littleEndian : Nat → (Nat → BitVec 8) → Nat
  | 0, _ => 0
  | n + 1, f => (f 0).toNat + 256 * littleEndian n fun k => f (k + 1)

def byteOf (value k : Nat) : BitVec 8 := BitVec.ofNat 8 (value / 256 ^ k)

theorem littleEndian_lt (n : Nat) (f : Nat → BitVec 8) : littleEndian n f < 256 ^ n := by
  induction n generalizing f with
  | zero => exact Nat.one_pos
  | succ n ih =>
    have hlow := (f 0).isLt
    have hhigh := ih fun k => f (k + 1)
    rw [littleEndian, Nat.pow_succ]
    omega

theorem littleEndian_add (m n : Nat) (f : Nat → BitVec 8) : littleEndian (m + n) f =
    littleEndian m f + 256 ^ m * littleEndian n fun k => f (m + k) := by
  induction m generalizing f with
  | zero => simp [littleEndian]
  | succ m ih =>
    have hshift : (fun k => f (m + k + 1)) = fun k => f (m + 1 + k) := by
      funext k
      rw [Nat.add_right_comm]
    rw [Nat.succ_add, littleEndian, littleEndian, ih, hshift, Nat.pow_succ', Nat.mul_add,
      Nat.add_assoc, Nat.mul_assoc]

theorem byteOf_littleEndian {n k : Nat} (f : Nat → BitVec 8) (hk : k < n) :
    byteOf (littleEndian n f) k = f k := by
  have hlow := (f 0).isLt
  induction n generalizing k f with
  | zero => exact absurd hk (Nat.not_lt_zero k)
  | succ n ih =>
    cases k with
    | zero =>
      apply BitVec.eq_of_toNat_eq
      rw [byteOf, littleEndian, BitVec.toNat_ofNat]
      omega
    | succ k =>
      have hdiv : ((f 0).toNat + 256 * littleEndian n fun k => f (k + 1)) / 256 =
          littleEndian n fun k => f (k + 1) := by omega
      have hrest := ih (fun k => f (k + 1)) (Nat.lt_of_succ_lt_succ hk) (f 1).isLt
      rw [← hrest, byteOf, byteOf, littleEndian, Nat.pow_succ', ← Nat.div_div_eq_div_mul, hdiv]

theorem littleEndian_byteOf {n value : Nat} (hlt : value < 256 ^ n) :
    littleEndian n (byteOf value) = value := by
  induction n generalizing value with
  | zero => exact (Nat.lt_one_iff.mp hlt).symm
  | succ n ih =>
    have hrest : (fun k => byteOf value (k + 1)) = byteOf (value / 256) := by
      funext k
      rw [byteOf, byteOf, Nat.pow_succ', Nat.div_div_eq_div_mul]
    have hdiv : value / 256 < 256 ^ n := by
      rw [Nat.pow_succ'] at hlt
      exact Nat.div_lt_of_lt_mul hlt
    have hlow : (byteOf value 0).toNat = value % 256 := by
      rw [byteOf, Nat.pow_zero, Nat.div_one, BitVec.toNat_ofNat]
    rw [littleEndian, hrest, ih hdiv, hlow]
    omega

theorem littleEndian_congr {n : Nat} {f g : Nat → BitVec 8} (h : ∀ k < n, f k = g k) :
    littleEndian n f = littleEndian n g := by
  induction n generalizing f g with
  | zero => rfl
  | succ n ih =>
    rw [littleEndian, littleEndian, h 0 (Nat.succ_pos n),
      ih fun k hk => h (k + 1) (Nat.succ_lt_succ hk)]

end Lib
