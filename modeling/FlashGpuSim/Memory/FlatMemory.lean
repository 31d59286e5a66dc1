import FlashGpuSim.Memory.MemorySpace
import Mathlib.Tactic

/-!
The functional memory as a flat map of bytes. An access is right unless its length does not fit an
`unsigned` together with its offset in the first block, it is a read that touches the last block of
the address space, or it crosses blocks and ends with the address space.
-/

namespace FlashGpuSim

open Lib

namespace MemorySpaceImpl

/-! ### The flat memory -/

/-- The bytes that a memory holds. -/
def flat (b : Nat) (m : MemorySpaceImpl) : ByteMemory :=
  fun a => ((m (a / 2 ^ b)).getD fun _ => 0) (a % 2 ^ b)

/-- What a call does to flat bytes. -/
def Call.flatWrite (b : Nat) (f : ByteMemory) : Call → ByteMemory
  | .write addr length data => f.write addr.toNat length.toNat data
  | .writeOnly offset index length data =>
    f.write (index.toNat * 2 ^ b + offset.toNat) length.toNat data
  | .read .. => f

/-- A read fills the first bytes of its buffer. -/
def Call.flatRead (f : ByteMemory) : Call → List ByteMemory
  | .read addr length out => [out.write 0 length.toNat (f.read addr.toNat)]
  | _ => []

def flatRun (b : Nat) (f : ByteMemory) : List Call → ByteMemory × List ByteMemory
  | [] => (f, [])
  | c :: calls =>
    let rest := flatRun b (c.flatWrite b f) calls
    (rest.1, c.flatRead f ++ rest.2)

/-- The calls that the code gets right. -/
def Call.Fits (b : Nat) : Call → Prop
  | .write addr length _ =>
    addr.toNat + length.toNat ≤ 2 ^ 64 ∧
      (addr.toNat % 2 ^ b + length.toNat ≤ 2 ^ b ∨
        addr.toNat % 2 ^ b + length.toNat < 2 ^ 32 ∧ addr.toNat + length.toNat < 2 ^ 64)
  | .writeOnly offset _ length _ => offset.toNat + length.toNat ≤ 2 ^ b
  | .read addr length _ =>
    addr.toNat % 2 ^ b + length.toNat ≤ 2 ^ b ∧ addr.toNat + length.toNat = 2 ^ 64 ∨
      addr.toNat % 2 ^ b + length.toNat < 2 ^ 32 ∧
        (length.toNat = 0 ∨ addr.toNat + length.toNat ≤ 2 ^ 64 - 2 ^ b)

/-- Every call of the run ends, and it reads and leaves the flat bytes. -/
def FlatRun (b : Nat) (calls : List Call) : Prop :=
  ∃ m, run b (fun _ => none) calls = some (m, (flatRun b (fun _ => 0) calls).2) ∧
    flat b m = (flatRun b (fun _ => 0) calls).1

/-! ### Blocks -/

variable {b : Nat} {m : MemorySpaceImpl}

theorem flat_update {index offset length : Nat} {data : ByteMemory}
    (h : offset + length ≤ 2 ^ b) :
    flat b (Function.update m index
        (some (((m index).getD fun _ => 0).write offset length data))) =
      (flat b m).write (index * 2 ^ b + offset) length data := by
  funext a
  have hpos := Nat.two_pow_pos b
  have hsplit := Nat.div_add_mod' a (2 ^ b)
  have hlt := Nat.mod_lt a hpos
  unfold flat ByteMemory.write
  by_cases hblock : a / 2 ^ b = index
  · subst hblock
    rw [Function.update_self, Option.getD_some]
    have hiff : (offset ≤ a % 2 ^ b ∧ a % 2 ^ b < offset + length) ↔
        (a / 2 ^ b * 2 ^ b + offset ≤ a ∧ a < a / 2 ^ b * 2 ^ b + offset + length) := by omega
    have hplace : a % 2 ^ b - offset = a - (a / 2 ^ b * 2 ^ b + offset) := by omega
    simp only [hiff, hplace]
  · rw [Function.update_of_ne hblock]
    have hout : ¬ (index * 2 ^ b + offset ≤ a ∧ a < index * 2 ^ b + offset + length) := by
      rintro ⟨hle, hlt'⟩
      exact hblock (Nat.div_eq_of_lt_le (by omega) (by rw [Nat.succ_mul]; omega))
    rw [if_neg hout]

theorem storageWrite_flat (m : MemorySpaceImpl) (index : Nat) (data : ByteMemory)
    {offset length : Nat} (h : offset + length ≤ 2 ^ b) :
    ∃ m', storageWrite b m index offset length data = some m' ∧
      flat b m' = (flat b m).write (index * 2 ^ b + offset) length data :=
  ⟨_, if_pos h, flat_update h⟩

/-- The end of a block that begins inside the address space. -/
theorem block_end_le {addr : Nat} (limit : Nat) (hb : b < 32) (hlt : addr < 2 ^ 64 - limit * 2 ^ b) :
    (addr / 2 ^ b + 1) * 2 ^ b ≤ 2 ^ 64 - limit * 2 ^ b := by
  have hsize : 2 ^ 64 - limit * 2 ^ b = (2 ^ (64 - b) - limit) * 2 ^ b := by
    rw [Nat.sub_mul, ← pow_add, Nat.sub_add_cancel (by omega)]
  rw [hsize] at hlt ⊢
  exact Nat.mul_le_mul_right _ (Nat.div_lt_of_lt_mul (by rwa [Nat.mul_comm]))

/-- A read inside one block. -/
theorem readSingleBlock_flat {addr length dst : Nat} {out : ByteMemory} (hb : b < 32)
    (hfits : fitsBlock b (addr / 2 ^ b) addr length = true)
    (h : addr % 2 ^ b + length ≤ 2 ^ b) :
    readSingleBlock b m (addr / 2 ^ b) addr length out dst =
      some (out.write dst length ((flat b m).read addr)) := by
  have hsize : 2 ^ b ≤ 2 ^ 31 := Nat.pow_le_pow_right (by decide) (by omega)
  have hlength : wrap32 length = length := Nat.mod_eq_of_lt (by omega)
  have hsplit := Nat.div_add_mod' addr (2 ^ b)
  have hread : ∀ k < length, flat b m (addr + k) =
      ((m (addr / 2 ^ b)).getD fun _ => 0) (addr % 2 ^ b + k) := by
    intro k hk
    have hdiv : (addr + k) / 2 ^ b = addr / 2 ^ b :=
      Nat.div_eq_of_lt_le (by omega) (by rw [Nat.succ_mul]; omega)
    have hmod := Nat.div_add_mod' (addr + k) (2 ^ b)
    rw [hdiv] at hmod
    unfold flat
    rw [hdiv, show (addr + k) % 2 ^ b = addr % 2 ^ b + k by omega]
  have hbytes : ∀ data : ByteMemory,
      (∀ k < length, data k = ((m (addr / 2 ^ b)).getD fun _ => 0) (addr % 2 ^ b + k)) →
      out.write dst length data = out.write dst length ((flat b m).read addr) := by
    intro data hdata
    funext a
    unfold ByteMemory.write
    split
    · rename_i hin
      rw [hdata _ (by omega), ← hread _ (by omega)]
      rfl
    · rfl
  unfold readSingleBlock
  rw [if_pos hfits]
  cases hm : m (addr / 2 ^ b) with
  | none =>
    simp only [Option.some.injEq]
    exact hbytes _ fun k _ => by rw [hm]; rfl
  | some storage =>
    simp only [hlength, h, if_true, Option.some.injEq]
    exact hbytes _ fun k _ => by rw [hm]; rfl

/-! ### The loops -/

theorem txBytes_eq {offset remain : Nat} (hb : b < 32) (hoffset : offset < 2 ^ b)
    (h : offset + remain < 2 ^ 32) :
    txBytes b offset remain = min (offset + remain) (2 ^ b) - offset := by
  have hsize : 2 ^ b ≤ 2 ^ 31 := Nat.pow_le_pow_right (by decide) (by omega)
  unfold txBytes wrap64 wrap32
  rw [Nat.mod_eq_of_lt h]
  dsimp only
  omega

/-- One round of a loop: it moves some bytes of one block, and the rest begins a block or is
empty. -/
structure Round (b addr remain tx : Nat) : Prop where
  pos : 0 < tx
  le : tx ≤ remain
  inBlock : addr % 2 ^ b + tx ≤ 2 ^ b
  rest : (addr + tx) % 2 ^ b + (remain - tx) < 2 ^ 32

theorem round_txBytes {addr remain : Nat} (hb : b < 32) (hpos : 0 < remain)
    (h : addr % 2 ^ b + remain < 2 ^ 32) :
    Round b addr remain (txBytes b (addr % 2 ^ b) remain) := by
  have hsize : 2 ^ b ≤ 2 ^ 31 := Nat.pow_le_pow_right (by decide) (by omega)
  have hlt := Nat.mod_lt addr (Nat.two_pow_pos b)
  rw [txBytes_eq hb hlt h]
  refine ⟨by omega, by omega, by omega, ?_⟩
  rcases Nat.lt_or_ge (addr % 2 ^ b + remain) (2 ^ b) with hlast | hmore
  · have hnext := Nat.mod_lt (addr + (min (addr % 2 ^ b + remain) (2 ^ b) - addr % 2 ^ b))
      (Nat.two_pow_pos b)
    omega
  · have hend : addr + (min (addr % 2 ^ b + remain) (2 ^ b) - addr % 2 ^ b) =
        (addr / 2 ^ b + 1) * 2 ^ b := by
      have hsplit := Nat.div_add_mod' addr (2 ^ b)
      rw [Nat.succ_mul]
      omega
    rw [hend, Nat.mul_mod_left]
    omega

/-- Two writes, the second one behind the first. -/
theorem write_write (f data : ByteMemory) (addr n k : Nat) :
    (f.write addr n data).write (addr + n) k (fun i => data (n + i)) =
      f.write addr (n + k) data := by
  funext a
  unfold ByteMemory.write
  by_cases hlow : addr ≤ a ∧ a < addr + n
  · rw [if_neg (by omega), if_pos hlow, if_pos (by omega)]
  · rw [if_neg hlow]
    by_cases hhigh : addr + n ≤ a ∧ a < addr + n + k
    · rw [if_pos hhigh, if_pos (by omega)]
      exact congrArg data (by omega)
    · rw [if_neg hhigh, if_neg (by omega)]

theorem writeLoop_flat (data : ByteMemory) (hb : b < 32) :
    ∀ (fuel : Nat) (m : MemorySpaceImpl) (addr src remain : Nat), remain ≤ fuel →
      addr % 2 ^ b + remain < 2 ^ 32 → addr + remain < 2 ^ 64 → src + remain < 2 ^ 32 →
      ∃ m', writeLoop b data fuel m addr src remain = some m' ∧
        flat b m' = (flat b m).write addr remain fun k => data (src + k) := by
  intro fuel
  induction fuel with
  | zero =>
    intro m addr src remain hfuel _ _ _
    have hzero : remain = 0 := by omega
    subst hzero
    refine ⟨m, rfl, ?_⟩
    funext a
    simp only [ByteMemory.write]
    rw [if_neg (by omega)]
  | succ fuel ih =>
    intro m addr src remain hfuel hfirst haddr hsrc
    unfold writeLoop
    by_cases hzero : remain = 0
    · subst hzero
      refine ⟨m, rfl, ?_⟩
      funext a
      simp only [ByteMemory.write]
      rw [if_neg (by omega)]
    · rw [if_neg hzero]
      have hround := round_txBytes hb (Nat.pos_of_ne_zero hzero) hfirst
      simp only
      generalize txBytes b (addr % 2 ^ b) remain = tx at hround
      obtain ⟨hpos, hle, hblock, hrest⟩ := hround
      obtain ⟨m', hwrite, hflat⟩ := storageWrite_flat m (addr / 2 ^ b)
        (fun k => data (src + k)) hblock
      rw [Nat.div_add_mod'] at hflat
      have hnext : wrap64 (addr + tx) = addr + tx := Nat.mod_eq_of_lt (by omega)
      have hsrc' : wrap32 (src + tx) = src + tx := Nat.mod_eq_of_lt (by omega)
      have hremain : wrap32 (remain + 2 ^ 64 - tx) = remain - tx := by
        unfold wrap32
        omega
      rw [hwrite, Option.bind_eq_bind, Option.bind_some, hnext, hsrc', hremain]
      obtain ⟨m'', hloop, hflat'⟩ := ih m' (addr + tx) (src + tx) (remain - tx) (by omega) hrest
        (by omega) (by omega)
      refine ⟨m'', hloop, ?_⟩
      have hdata : (fun k => data (src + tx + k)) = fun k => data (src + (tx + k)) := by
        funext k
        rw [Nat.add_assoc]
      have hjoin := write_write (flat b m) (fun k => data (src + k)) addr tx (remain - tx)
      rw [hflat', hflat, hdata, hjoin, Nat.add_sub_cancel' hle]

theorem readLoop_flat (hb : b < 32) :
    ∀ (fuel : Nat) (out : ByteMemory) (addr dst remain : Nat), remain ≤ fuel →
      addr % 2 ^ b + remain < 2 ^ 32 → (remain = 0 ∨ addr + remain ≤ 2 ^ 64 - 2 ^ b) →
      dst + remain < 2 ^ 32 →
      readLoop b m fuel out addr dst remain =
        some (out.write dst remain ((flat b m).read addr)) := by
  intro fuel
  induction fuel with
  | zero =>
    intro out addr dst remain hfuel _ _ _
    have hzero : remain = 0 := by omega
    subst hzero
    refine congrArg some (funext fun a => ?_)
    simp only [ByteMemory.write]
    rw [if_neg (by omega)]
  | succ fuel ih =>
    intro out addr dst remain hfuel hfirst haddr hdst
    unfold readLoop
    by_cases hzero : remain = 0
    · subst hzero
      refine congrArg some (funext fun a => ?_)
      simp only [ByteMemory.write]
      rw [if_neg (by omega)]
    · rw [if_neg hzero]
      have hround := round_txBytes hb (Nat.pos_of_ne_zero hzero) hfirst
      simp only
      generalize txBytes b (addr % 2 ^ b) remain = tx at hround
      obtain ⟨hpos, hle, hblock, hrest⟩ := hround
      have hend : addr + remain ≤ 2 ^ 64 - 2 ^ b := haddr.resolve_left hzero
      have hblockEnd := block_end_le 1 hb (show addr < 2 ^ 64 - 1 * 2 ^ b by omega)
      have hsplit := Nat.div_add_mod' addr (2 ^ b)
      have hfits : fitsBlock b (addr / 2 ^ b) addr tx = true := by
        have hsize := Nat.two_pow_pos b
        have hexpand := Nat.add_one_mul (addr / 2 ^ b) (2 ^ b)
        unfold fitsBlock wrap64
        rw [decide_eq_true_eq, Nat.mod_eq_of_lt (by omega), Nat.mod_eq_of_lt (by omega)]
        omega
      have hnext : wrap64 (addr + tx) = addr + tx := Nat.mod_eq_of_lt (by omega)
      have hdst' : wrap32 (dst + tx) = dst + tx := Nat.mod_eq_of_lt (by omega)
      have hremain : wrap32 (remain + 2 ^ 64 - tx) = remain - tx := by
        unfold wrap32
        omega
      rw [readSingleBlock_flat hb hfits hblock, Option.bind_eq_bind, Option.bind_some, hnext,
        hdst', hremain, ih _ (addr + tx) (dst + tx) (remain - tx) (by omega) hrest
        (.inr (by omega)) (by omega)]
      have hdata : (flat b m).read (addr + tx) = fun k => (flat b m).read addr (tx + k) := by
        funext k
        exact congrArg (flat b m) (Nat.add_assoc addr tx k)
      have hjoin := write_write out ((flat b m).read addr) dst tx (remain - tx)
      rw [hdata, hjoin, Nat.add_sub_cancel' hle]

/-! ### Calls -/

theorem write_flat (m : MemorySpaceImpl) (data : ByteMemory) {addr length : Nat} (hb : b < 32) (haddr : addr < 2 ^ 64)
    (hend : addr + length ≤ 2 ^ 64)
    (hfits : addr % 2 ^ b + length ≤ 2 ^ b ∨
      addr % 2 ^ b + length < 2 ^ 32 ∧ addr + length < 2 ^ 64) :
    ∃ m', write b m addr length data = some m' ∧
      flat b m' = (flat b m).write addr length data := by
  have hsize : 2 ^ b ≤ 2 ^ 31 := Nat.pow_le_pow_right (by decide) (by omega)
  have hlength : wrap32 length = length := Nat.mod_eq_of_lt (by omega)
  have hsplit := Nat.div_add_mod' addr (2 ^ b)
  unfold write
  dsimp only
  split
  · rename_i hfast
    have hblock : addr % 2 ^ b + length ≤ 2 ^ b := by
      rcases hfits with h | ⟨-, hlt⟩
      · exact h
      · unfold fitsBlock wrap64 at hfast
        rw [decide_eq_true_eq, Nat.mod_eq_of_lt hlt] at hfast
        have hcut := Nat.mod_le ((addr / 2 ^ b + 1) * 2 ^ b) (2 ^ 64)
        have hexpand := Nat.add_one_mul (addr / 2 ^ b) (2 ^ b)
        omega
    rw [hlength]
    obtain ⟨m', hwrite, hflat⟩ := storageWrite_flat m (addr / 2 ^ b) data hblock
    exact ⟨m', hwrite, by rw [hflat, hsplit]⟩
  · rename_i hslow
    have hlt : addr + length < 2 ^ 64 := by
      refine lt_of_le_of_ne hend fun heq => hslow ?_
      unfold fitsBlock wrap64
      rw [heq, Nat.mod_self]
      exact decide_eq_true (Nat.zero_le _)
    rw [hlength]
    obtain ⟨m', hloop, hflat⟩ := writeLoop_flat data hb length m addr 0 length
      (le_refl _) (by omega) hlt (by omega)
    refine ⟨m', hloop, ?_⟩
    simpa using hflat

theorem read_flat {addr length : Nat} {out : ByteMemory} (hb : b < 32) (haddr : addr < 2 ^ 64)
    (hfits : addr % 2 ^ b + length ≤ 2 ^ b ∧ addr + length = 2 ^ 64 ∨
      addr % 2 ^ b + length < 2 ^ 32 ∧ (length = 0 ∨ addr + length ≤ 2 ^ 64 - 2 ^ b)) :
    read b m addr length out = some (out.write 0 length ((flat b m).read addr)) := by
  have hsize : 2 ^ b ≤ 2 ^ 31 := Nat.pow_le_pow_right (by decide) (by omega)
  have hpos := Nat.two_pow_pos b
  have hlength : wrap32 length = length := Nat.mod_eq_of_lt (by omega)
  have hsplit := Nat.div_add_mod' addr (2 ^ b)
  unfold read
  dsimp only
  split
  · rename_i hfast
    refine readSingleBlock_flat hb hfast ?_
    rcases hfits with ⟨h, -⟩ | ⟨-, hlow⟩
    · exact h
    · unfold fitsBlock wrap64 at hfast
      rw [decide_eq_true_eq, Nat.mod_eq_of_lt (by omega)] at hfast
      have hcut := Nat.mod_le ((addr / 2 ^ b + 1) * 2 ^ b) (2 ^ 64)
      have hexpand := Nat.add_one_mul (addr / 2 ^ b) (2 ^ b)
      omega
  · rename_i hslow
    have hlow : length = 0 ∨ addr + length ≤ 2 ^ 64 - 2 ^ b := by
      rcases hfits with ⟨-, heq⟩ | ⟨-, hlow⟩
      · refine absurd ?_ hslow
        unfold fitsBlock wrap64
        rw [heq, Nat.mod_self]
        exact decide_eq_true (Nat.zero_le _)
      · exact hlow
    rw [hlength]
    exact readLoop_flat hb length out addr 0 length (le_refl _) (by omega) hlow (by omega)

theorem call_flat (m : MemorySpaceImpl) {c : Call} (hb : b < 32) (hfits : c.Fits b) :
    ∃ m', call b m c = some (m', c.flatRead (flat b m)) ∧
      flat b m' = c.flatWrite b (flat b m) := by
  have hsize : 2 ^ b ≤ 2 ^ 31 := Nat.pow_le_pow_right (by decide) (by omega)
  cases c with
  | write addr length data =>
    obtain ⟨hend, hin⟩ := hfits
    obtain ⟨m', hwrite, hflat⟩ := write_flat m data hb addr.isLt hend hin
    exact ⟨m', by rw [call, hwrite]; rfl, hflat⟩
  | writeOnly offset index length data =>
    have hin : offset.toNat + length.toNat ≤ 2 ^ b := hfits
    have hoffset : wrap32 offset.toNat = offset.toNat := Nat.mod_eq_of_lt (by omega)
    obtain ⟨m', hwrite, hflat⟩ := storageWrite_flat m index.toNat data hin
    exact ⟨m', by rw [call, writeOnly, hoffset, hwrite]; rfl, hflat⟩
  | read addr length out =>
    exact ⟨m, by rw [call, read_flat hb addr.isLt hfits]; rfl, rfl⟩

theorem run_flat (hb : b < 32) (calls : List Call) (hfits : ∀ c ∈ calls, c.Fits b) :
    ∀ m : MemorySpaceImpl, ∃ m', run b m calls = some (m', (flatRun b (flat b m) calls).2) ∧
      flat b m' = (flatRun b (flat b m) calls).1 := by
  induction calls with
  | nil => exact fun m => ⟨m, rfl, rfl⟩
  | cons c calls ih =>
    intro m
    obtain ⟨m', hcall, hflat⟩ := call_flat m hb (hfits c List.mem_cons_self)
    obtain ⟨m'', hrun, hflat'⟩ := ih (fun c hc => hfits c (List.mem_cons_of_mem _ hc)) m'
    rw [hflat] at hrun hflat'
    refine ⟨m'', ?_, hflat'⟩
    rw [run, hcall, Option.bind_eq_bind, Option.bind_some, hrun]
    rfl

/-- A memory behaves as flat bytes over every run of calls that fit. -/
theorem memory_flat (hb : b < 32) {calls : List Call} (hfits : ∀ c ∈ calls, c.Fits b) :
    FlatRun b calls :=
  run_flat hb calls hfits fun _ => none

theorem memory_flat_block :
    (∀ c ∈ [Call.write 30 4 fun _ => 7, .read 28 8 fun _ => 0], c.Fits 5) ∧
      FlatRun 5 [.write 30 4 fun _ => 7, .read 28 8 fun _ => 0] := by
  have hfits : ∀ c ∈ [Call.write 30 4 fun _ => 7, .read 28 8 fun _ => 0], c.Fits 5 := by
    simp [Call.Fits]
  exact ⟨hfits, memory_flat (by decide) hfits⟩

/-- A write of 4 GiB, one whose length and offset do not fit together, a read in the last block
and a write that ends with the address space. -/
theorem not_memory_flat : ¬ FlatRun 5 [.write 0 (2 ^ 32) fun _ => 1] ∧
    ¬ FlatRun 5 [.write 1 (2 ^ 32 - 1) fun _ => 1] ∧
    ¬ FlatRun 5 [.read (2 ^ 64 - 32) 4 fun _ => 0] ∧
    ¬ FlatRun 5 [.write (2 ^ 64 - 48) 48 fun _ => 1] := by
  refine ⟨?_, ?_, ?_, ?_⟩
  · rintro ⟨m, hrun, hflat⟩
    have hm : (fun _ => none) = m := by
      have hsome : run 5 (fun _ => none) [.write 0 (2 ^ 32) fun _ => 1] =
          some ((fun _ => none), []) := rfl
      rw [hsome] at hrun
      exact (Prod.mk.inj (Option.some.inj hrun)).1
    have hbyte := congrFun hflat 0
    rw [← hm] at hbyte
    exact absurd hbyte (by decide)
  · rintro ⟨m, hrun, -⟩
    cases hrun
  · rintro ⟨m, hrun, -⟩
    cases hrun
  · rintro ⟨m, hrun, -⟩
    cases hrun

end MemorySpaceImpl

end FlashGpuSim
