import FlashGpuSim.Tensor.LdStMatrix

/-!
Which bytes the lanes of `ldmatrix` and `stmatrix` move. A load is the one the instruction
describes unless a lane finds the fragment of an earlier lane in place of a row address.
-/

namespace FlashGpuSim

open Lib

/-! ### Registers -/

section registers

variable {regs : MatrixReg → RegBytes} {vector : List MatrixReg} {data : Nat → RegBytes}
  {r : MatrixReg} {k : Nat}

theorem setMatrixReg_self (regs : MatrixReg → RegBytes) (r : MatrixReg) (value : RegBytes)
    (hk : k < 4) : setMatrixReg regs r value r k = value k := by
  have hbytes : 4 ≤ r.bytes := by
    unfold MatrixReg.bytes
    split <;> omega
  unfold setMatrixReg
  rw [Function.update_self, if_neg (by omega)]

theorem setMatrixReg_of_ne (value : RegBytes) {r' : MatrixReg} (h : r' ≠ r) :
    setMatrixReg regs r value r' = regs r' := Function.update_of_ne h _ _

/-- The last place of a register in a vector. -/
def LastPlace (vector : List MatrixReg) (r : MatrixReg) (m : Nat) : Prop :=
  vector[m]? = some r ∧ ∀ m', m < m' → vector[m']? ≠ some r

/-- A register holds the data of its last place in the vector, and what it held before if it has
none. -/
theorem setVector_spec (regs : MatrixReg → RegBytes) (vector : List MatrixReg)
    (data : Nat → RegBytes) (r : MatrixReg) :
    (r ∉ vector → setVectorOperandValues regs vector data r = regs r) ∧
      (r ∈ vector → ∃ m, LastPlace vector r m ∧
        ∀ k < 4, setVectorOperandValues regs vector data r k = data m k) := by
  induction vector using List.reverseRecOn with
  | nil => simp [setVectorOperandValues]
  | append_singleton vector last ih =>
    have hstep : setVectorOperandValues regs (vector ++ [last]) data =
        setMatrixReg (setVectorOperandValues regs vector data) last (data vector.length) := by
      simp [setVectorOperandValues, List.zipIdx_append]
    rw [hstep]
    obtain ⟨hout, hin⟩ := ih
    rcases eq_or_ne r last with rfl | hne
    · refine ⟨fun hnot => absurd (by simp) hnot, fun _ => ⟨vector.length, ⟨by simp, ?_⟩, ?_⟩⟩
      · intro m' hm'
        rw [List.getElem?_eq_none (by simpa using hm')]
        exact Option.some_ne_none r |>.symm
      · intro k hk
        exact setMatrixReg_self _ _ _ hk
    · rw [setMatrixReg_of_ne _ hne]
      refine ⟨fun hnot => hout fun hmem => hnot (List.mem_append_left _ hmem), fun hmem => ?_⟩
      have hmem : r ∈ vector := by simpa [hne] using hmem
      obtain ⟨m, ⟨hm, hlast⟩, hdata⟩ := hin hmem
      have hlt := (List.getElem?_eq_some_iff.mp hm).1
      refine ⟨m, ⟨by rw [List.getElem?_append_left hlt, hm], fun m' hm' => ?_⟩, hdata⟩
      rcases Nat.lt_or_ge m' vector.length with hin' | hge
      · rw [List.getElem?_append_left hin']
        exact hlast m' hm'
      · rw [List.getElem?_append_right hge]
        intro heq
        have hmem' := List.mem_of_getElem? heq
        exact hne (List.mem_singleton.mp hmem')

end registers

/-! ### The bytes of a lane -/

namespace MatrixConfig

variable {c : MatrixConfig} {w : MatrixWarp} {lane m k n : Nat}

/-- Where the byte of a fragment is found, given the addresses that the lanes hold. -/
def sourceByte (c : MatrixConfig) (addresses : Nat → Nat) (lane m k : Nat) : Nat :=
  if c.isTranspose then
    (addresses (m * 8 + (lane % 4 * 2 + k / 2)) + lane / 4 * 2) % 2 ^ 32 + k % 2
  else (addresses (m * 8 + lane / 4) + lane % 4 * 2 * 2) % 2 ^ 32 + k

/-- The byte of an element: of row `lane / 4` and column `2 * (lane % 4) + k / 2` of the matrix, or
of the transposed one. -/
def elementByte (c : MatrixConfig) (addresses : Nat → Nat) (lane m k : Nat) : Nat :=
  let row := lane / 4
  let column := 2 * (lane % 4) + k / 2
  if c.isTranspose then addresses (8 * m + column) + 2 * row + k % 2
  else addresses (8 * m + row) + 2 * column + k % 2

/-- The copies of a lane set these bytes of its result register. -/
theorem loadMatrix_apply (h16 : c.elementSize = 2) (w : MatrixWarp) (lane : Nat)
    (results : Nat → RegBytes) (m m' k : Nat) : c.loadMatrix w lane results m m' k =
      if m' = m ∧ k < 4 then w.smem (c.sourceByte (c.addresses w.regs) lane m k)
      else results m' k := by
  unfold loadMatrix
  rcases eq_or_ne m' m with rfl | hne
  · rw [Function.update_self]
    unfold transfers sourceByte
    rcases Bool.eq_false_or_eq_true c.isTranspose with htrans | htrans
    · have hk : k < 2 ∨ (2 ≤ k ∧ k < 4) ∨ 4 ≤ k := by omega
      rcases hk with hk | ⟨hlow, hk⟩ | hk
      · have h0 : k / 2 = 0 := by omega
        have h1 : k % 2 = k := by omega
        have hlt : k < 4 := by omega
        have hnot : ¬ 2 ≤ k := by omega
        simp [htrans, m8n8Spec, List.range_succ, h16, ByteMemory.write, ByteMemory.read, h0, h1,
          hlt, hk, hnot]
      · have h0 : k / 2 = 1 := by omega
        have h1 : k % 2 = k - 2 := by omega
        simp [htrans, m8n8Spec, List.range_succ, h16, ByteMemory.write, ByteMemory.read, h0, h1,
          hlow, hk]
      · have hnot : ¬ k < 4 := by omega
        have hnot' : ¬ k < 2 := by omega
        simp [htrans, m8n8Spec, List.range_succ, h16, ByteMemory.write, hnot, hnot']
    · simp [htrans, m8n8Spec, h16, ByteMemory.write, ByteMemory.read]
  · rw [Function.update_of_ne hne, if_neg fun hin => hne hin.1]

theorem loadMatrices_apply (h16 : c.elementSize = 2) (w : MatrixWarp) (lane : Nat)
    (results : Nat → RegBytes) (n m k : Nat) :
    (List.range n).foldl (c.loadMatrix w lane) results m k =
      if m < n ∧ k < 4 then w.smem (c.sourceByte (c.addresses w.regs) lane m k)
      else results m k := by
  induction n with
  | zero => simp
  | succ n ih =>
    rw [List.range_succ, List.foldl_append, List.foldl_cons, List.foldl_nil,
      loadMatrix_apply h16, ih]
    grind

/-- The cells that a lane of a store sets. -/
def laneCells (c : MatrixConfig) (addresses : Nat → Nat) (lane : Nat) (data : Nat → RegBytes) :
    List (Nat × BitVec 8) :=
  (List.range c.numMatrixs).flatMap fun m =>
    (List.range 4).map fun k => (c.sourceByte addresses lane m k, data m k)

theorem storeMatrix_eq (h16 : c.elementSize = 2) (addresses : Nat → Nat) (lane : Nat)
    (results : Nat → RegBytes) (smem : ByteMemory) (m : Nat) :
    c.storeMatrix addresses lane results smem m = smem.setCells
      ((List.range 4).map fun k => (c.sourceByte addresses lane m k, results m k)) := by
  unfold storeMatrix transfers sourceByte
  simp only [ByteMemory.write_eq_setCells]
  rcases Bool.eq_false_or_eq_true c.isTranspose with htrans | htrans
  · simp [htrans, m8n8Spec, List.range_succ, h16, ByteMemory.writeCells, ByteMemory.read,
      ← ByteMemory.setCells_append]
  · simp [htrans, m8n8Spec, List.range_succ, h16, ByteMemory.writeCells, ByteMemory.read]

theorem storeMatrices_eq (h16 : c.elementSize = 2) (addresses : Nat → Nat) (lane : Nat)
    (results : Nat → RegBytes) (smem : ByteMemory) :
    (List.range c.numMatrixs).foldl (c.storeMatrix addresses lane results) smem =
      smem.setCells (c.laneCells addresses lane results) := by
  unfold laneCells
  rw [← ByteMemory.foldl_setCells]
  congr 1
  funext smem m
  exact storeMatrix_eq h16 _ _ _ _ _

/-! ### Loads -/

/-- The registers of a lane after its turn. -/
structure LaneLoaded (c : MatrixConfig) (w : MatrixWarp) (regs : Nat → MatrixReg → RegBytes)
    (lane : Nat) : Prop where
  kept : ∀ r ∉ c.vector, regs lane r = w.regs lane r
  loaded : ∀ r ∈ c.vector, ∃ m, LastPlace c.vector r m ∧ (m < c.numMatrixs → ∀ k < 4,
    regs lane r k = w.smem (c.sourceByte
      (fun a => c.addresses (if a < lane then regs else w.regs) a) lane m k))

/-- The state after the lanes below `n`. -/
structure LoadedTo (c : MatrixConfig) (w : MatrixWarp) (n : Nat) (v : MatrixWarp) : Prop where
  smem : v.smem = w.smem
  later : ∀ a, n ≤ a → v.regs a = w.regs a
  done : ∀ a < n, LaneLoaded c w v.regs a

theorem LaneLoaded.congr {regs regs' : Nat → MatrixReg → RegBytes}
    (h : LaneLoaded c w regs lane) (hsame : ∀ a ≤ lane, regs' a = regs a) :
    LaneLoaded c w regs' lane := by
  have haddresses : (fun a => c.addresses (if a < lane then regs' else w.regs) a) =
      fun a => c.addresses (if a < lane then regs else w.regs) a := by
    funext a
    unfold addresses
    split
    · rename_i hlt
      rw [hsame a hlt.le]
    · rfl
  refine ⟨fun r hr => ?_, fun r hr => ?_⟩
  · rw [hsame lane le_rfl]
    exact h.kept r hr
  · obtain ⟨m, hm, hbytes⟩ := h.loaded r hr
    refine ⟨m, hm, fun hlt k hk => ?_⟩
    rw [hsame lane le_rfl, haddresses]
    exact hbytes hlt k hk

theorem loadLane_step (h16 : c.elementSize = 2) {state : MatrixWarp × (Nat → RegBytes)}
    (h : LoadedTo c w n state.1) : LoadedTo c w (n + 1) (c.loadLane state n).1 := by
  have hregs : (c.loadLane state n).1.regs = Function.update state.1.regs n
      (setVectorOperandValues (state.1.regs n) c.vector
        ((List.range c.numMatrixs).foldl (c.loadMatrix state.1 n) state.2)) := rfl
  have hbefore : ∀ a < n, (c.loadLane state n).1.regs a = state.1.regs a := by
    intro a ha
    rw [hregs, Function.update_of_ne ha.ne]
  refine ⟨h.smem, fun a ha => ?_, fun a ha => ?_⟩
  · rw [hregs, Function.update_of_ne (by omega)]
    exact h.later a (by omega)
  · rcases Nat.lt_or_ge a n with hlt | hge
    · exact (h.done a hlt).congr fun b hb => hbefore b (by omega)
    · obtain rfl : a = n := by omega
      have haddresses : (fun b => c.addresses (if b < a then (c.loadLane state a).1.regs
          else w.regs) b) = c.addresses state.1.regs := by
        funext b
        unfold addresses
        split
        · rename_i hb
          rw [hbefore b hb]
        · rename_i hb
          rw [h.later b (by omega)]
      have hvector := setVector_spec (state.1.regs a) c.vector
        ((List.range c.numMatrixs).foldl (c.loadMatrix state.1 a) state.2)
      refine ⟨fun r hr => ?_, fun r hr => ?_⟩
      · rw [hregs, Function.update_self, (hvector r).1 hr, h.later a le_rfl]
      · obtain ⟨m, hm, hdata⟩ := (hvector r).2 hr
        refine ⟨m, hm, fun hlt k hk => ?_⟩
        rw [haddresses, hregs, Function.update_self, hdata k hk, loadMatrices_apply h16,
          if_pos ⟨hlt, hk⟩, h.smem]

theorem load_spec (h16 : c.elementSize = 2) (w : MatrixWarp) : LoadedTo c w 32 (c.load w) := by
  have hrun : ∀ n, LoadedTo c w n ((List.range n).foldl c.loadLane (w, fun _ _ => 0)).1 := by
    intro n
    induction n with
    | zero => exact ⟨rfl, fun _ _ => rfl, fun a ha => absurd ha (Nat.not_lt_zero a)⟩
    | succ n ih =>
      rw [List.range_succ, List.foldl_append, List.foldl_cons, List.foldl_nil]
      exact loadLane_step h16 ih
  exact hrun 32

/-- The bytes that belong in a fragment register, as the memory had them before. -/
def fragment (c : MatrixConfig) (w : MatrixWarp) (lane m k : Nat) : BitVec 8 :=
  w.smem (c.elementByte (c.addresses w.regs) lane m k)

/-- Every lane has its fragments. -/
def LoadsMatrices (c : MatrixConfig) (w : MatrixWarp) : Prop :=
  ∀ m r, c.vector[m]? = some r → ∀ lane < 32, ∀ k < 4,
    (c.load w).regs lane r k = c.fragment w lane m k

/-- The row addresses a lane finds when its turn comes: an earlier lane whose address register is
one of the vector holds the fragment of that register. -/
def heldAddresses (c : MatrixConfig) (w : MatrixWarp) (lane a : Nat) : Nat :=
  if a < lane ∧ c.addr.reg ∈ c.vector then
    (littleEndian 4 (c.fragment w a (c.vector.idxOf c.addr.reg)) + c.addr.offset) % 2 ^ 32
  else c.addresses w.regs a

/-- At the addresses the lanes find are the bytes of the elements, and a register that stands
twice in the vector is to hold the same fragment twice. -/
structure Undisturbed (c : MatrixConfig) (w : MatrixWarp) : Prop where
  agree : ∀ m m' r, c.vector[m]? = some r → c.vector[m']? = some r → ∀ lane < 32, ∀ k < 4,
    c.fragment w lane m k = c.fragment w lane m' k
  source : ∀ m r, LastPlace c.vector r m → ∀ lane < 32, ∀ k < 4,
    w.smem (c.sourceByte (c.heldAddresses w lane) lane m k) = c.fragment w lane m k

theorem addresses_low (c : MatrixConfig) (regs : Nat → MatrixReg → RegBytes) (lane : Nat) :
    c.addresses regs lane =
      (littleEndian 4 (regs lane c.addr.reg) + c.addr.offset) % 2 ^ 32 := by
  unfold addresses
  rw [show (8 : Nat) = 4 + 4 from rfl, littleEndian_add]
  omega

/-- Lanes that hold their fragments hold these addresses. -/
theorem heldAddresses_eq {regs : Nat → MatrixReg → RegBytes}
    (hkept : ∀ a < lane, c.addr.reg ∉ c.vector → regs a c.addr.reg = w.regs a c.addr.reg)
    (hloaded : ∀ a < lane, ∀ m, c.vector[m]? = some c.addr.reg → ∀ k < 4,
      regs a c.addr.reg k = c.fragment w a m k) :
    (fun a => c.addresses (if a < lane then regs else w.regs) a) = c.heldAddresses w lane := by
  funext a
  unfold heldAddresses
  rcases Nat.lt_or_ge a lane with hlt | hge
  · rw [if_pos hlt]
    by_cases hmem : c.addr.reg ∈ c.vector
    · have hidx : c.vector[c.vector.idxOf c.addr.reg]? = some c.addr.reg := by
        have hbound := List.idxOf_lt_length_of_mem hmem
        rw [List.getElem?_eq_getElem hbound, List.getElem_idxOf]
      rw [if_pos ⟨hlt, hmem⟩, addresses_low,
        littleEndian_congr fun k hk => hloaded a hlt _ hidx k hk]
    · rw [if_neg fun hin => hmem hin.2, addresses_low, addresses_low, hkept a hlt hmem]
  · rw [if_neg (by omega), if_neg (by omega)]

theorem lastPlace_unique {vector : List MatrixReg} {r : MatrixReg} {m m' : Nat}
    (h : LastPlace vector r m) (h' : LastPlace vector r m') : m = m' := by
  rcases Nat.lt_trichotomy m m' with hlt | heq | hgt
  · exact absurd h'.1 (h.2 m' hlt)
  · exact heq
  · exact absurd h.1 (h'.2 m hgt)

/-- The registers of a lane once the lanes before it hold their fragments. -/
theorem load_lane (h16 : c.elementSize = 2) (hlane : lane < 32)
    (hbefore : ∀ a < lane, ∀ m, c.vector[m]? = some c.addr.reg → ∀ k < 4,
      (c.load w).regs a c.addr.reg k = c.fragment w a m k)
    {r : MatrixReg} (hm : LastPlace c.vector r m) (hk : k < 4) :
    (c.load w).regs lane r k = w.smem (c.sourceByte (c.heldAddresses w lane) lane m k) := by
  have hspec := load_spec h16 w
  obtain ⟨m', hm', hbytes⟩ := (hspec.done lane hlane).loaded r (List.mem_of_getElem? hm.1)
  obtain rfl := lastPlace_unique hm hm'
  have hlt : m < c.numMatrixs := by
    rw [← c.operandSize]
    exact (List.getElem?_eq_some_iff.mp hm.1).1
  have hkept : ∀ a < lane, c.addr.reg ∉ c.vector →
      (c.load w).regs a c.addr.reg = w.regs a c.addr.reg :=
    fun a ha hnot => (hspec.done a (by omega)).kept _ hnot
  rw [hbytes hlt k hk, heldAddresses_eq hkept hbefore]

theorem loadsMatrices_iff (h16 : c.elementSize = 2) :
    c.LoadsMatrices w ↔ c.Undisturbed w := by
  constructor
  · intro hloads
    refine ⟨fun m m' r hm hm' lane hlane k hk => ?_, fun m r hm lane hlane k hk => ?_⟩
    · rw [← hloads m r hm lane hlane k hk, hloads m' r hm' lane hlane k hk]
    · rw [← hloads m r hm.1 lane hlane k hk]
      refine (load_lane h16 hlane (fun a ha m hm k hk => ?_) hm hk).symm
      exact hloads m _ hm a (by omega) k hk
  · intro hundisturbed m r hm lane hlane
    -- the lanes before have their fragments
    induction lane using Nat.strong_induction_on generalizing m r with
    | _ lane ih =>
      intro k hk
      have hplace := (load_spec h16 w).done lane hlane
      obtain ⟨m', hm', -⟩ := hplace.loaded r (List.mem_of_getElem? hm)
      rw [load_lane h16 hlane (fun a ha m hm k hk => ih a ha m _ hm (by omega) k hk) hm' hk,
        hundisturbed.source m' r hm' lane hlane k hk]
      exact hundisturbed.agree m' m r hm'.1 hm lane hlane k hk

/-! ### Rows that lie apart -/

/-- The rows of the matrices lie in the address space, none over another. -/
structure RowsApart (c : MatrixConfig) (addresses : Nat → Nat) : Prop where
  within : ∀ a < 8 * c.numMatrixs, addresses a + 16 ≤ 2 ^ 32
  apart : ∀ a < 8 * c.numMatrixs, ∀ b < 8 * c.numMatrixs, a ≠ b →
    addresses a + 16 ≤ addresses b ∨ addresses b + 16 ≤ addresses a

theorem RowsApart.sourceByte_eq {addresses : Nat → Nat} (h : c.RowsApart addresses)
    (hm : m < c.numMatrixs) (hlane : lane < 32) (hk : k < 4) :
    c.sourceByte addresses lane m k = c.elementByte addresses lane m k := by
  unfold sourceByte elementByte
  dsimp only
  split
  · rw [show m * 8 + (lane % 4 * 2 + k / 2) = 8 * m + (2 * (lane % 4) + k / 2) by omega]
    have hrow := h.within (8 * m + (2 * (lane % 4) + k / 2)) (by omega)
    rw [Nat.mod_eq_of_lt (by omega)]
    omega
  · rw [show m * 8 + lane / 4 = 8 * m + lane / 4 by omega]
    have hrow := h.within (8 * m + lane / 4) (by omega)
    rw [Nat.mod_eq_of_lt (by omega)]
    omega

/-- No byte belongs to two elements. -/
theorem RowsApart.elementByte_injective {addresses : Nat → Nat} (h : c.RowsApart addresses)
    {m' lane' k' : Nat} (hm : m < c.numMatrixs) (hlane : lane < 32) (hk : k < 4)
    (hm' : m' < c.numMatrixs) (hlane' : lane' < 32) (hk' : k' < 4)
    (heq : c.elementByte addresses lane m k = c.elementByte addresses lane' m' k') :
    lane = lane' ∧ m = m' ∧ k = k' := by
  unfold elementByte at heq
  dsimp only at heq
  have hsame : ∀ row row' byte byte', row < 8 * c.numMatrixs → row' < 8 * c.numMatrixs →
      byte < 16 → byte' < 16 → addresses row + byte = addresses row' + byte' →
      row = row' ∧ byte = byte' := by
    intro row row' byte byte' hrow hrow' hbyte hbyte' hsum
    rcases eq_or_ne row row' with rfl | hne
    · exact ⟨rfl, by omega⟩
    · have happart := h.apart row hrow row' hrow' hne
      omega
  split at heq
  · have hboth := hsame (8 * m + (2 * (lane % 4) + k / 2)) (8 * m' + (2 * (lane' % 4) + k' / 2))
      (2 * (lane / 4) + k % 2) (2 * (lane' / 4) + k' % 2) (by omega) (by omega) (by omega)
      (by omega) (by omega)
    omega
  · have hboth := hsame (8 * m + lane / 4) (8 * m' + lane' / 4)
      (2 * (2 * (lane % 4) + k / 2) + k % 2) (2 * (2 * (lane' % 4) + k' / 2) + k' % 2)
      (by omega) (by omega) (by omega) (by omega) (by omega)
    omega

/-! ### Stores -/

/-- The cells of all lanes. -/
def storeCells (c : MatrixConfig) (w : MatrixWarp) : List (Nat × BitVec 8) :=
  (List.range 32).flatMap fun lane => c.laneCells (c.addresses w.regs) lane
    (getVectorOperandValues (w.regs lane) c.vector fun _ _ => 0)

/-- What the lanes leave in the result registers never shows, since each fills its own. -/
theorem laneCells_congr {addresses : Nat → Nat} {data data' : Nat → RegBytes}
    (h : ∀ m < c.numMatrixs, data m = data' m) :
    c.laneCells addresses lane data = c.laneCells addresses lane data' := by
  unfold laneCells
  apply List.flatMap_congr
  intro m hm
  rw [h m (List.mem_range.mp hm)]

theorem store_spec (h16 : c.elementSize = 2)
    (w : MatrixWarp) : (c.store w).regs = w.regs ∧
      (c.store w).smem = w.smem.setCells (c.storeCells w) := by
  have hrun : ∀ n, ((List.range n).foldl c.storeLane (w, fun _ _ => 0)).1.regs = w.regs ∧
      ((List.range n).foldl c.storeLane (w, fun _ _ => 0)).1.smem =
        w.smem.setCells ((List.range n).flatMap fun lane => c.laneCells (c.addresses w.regs) lane
          (getVectorOperandValues (w.regs lane) c.vector fun _ _ => 0)) := by
    intro n
    induction n with
    | zero => exact ⟨rfl, rfl⟩
    | succ n ih =>
      obtain ⟨hregs, hsmem⟩ := ih
      rw [List.range_succ, List.foldl_append, List.foldl_cons, List.foldl_nil,
        List.flatMap_append, List.flatMap_singleton, ByteMemory.setCells_append, ← hsmem]
      generalize (List.range n).foldl c.storeLane (w, fun _ _ => 0) = state at hregs ⊢
      refine ⟨hregs, ?_⟩
      unfold storeLane
      dsimp only
      rw [storeMatrices_eq h16, hregs]
      congr 1
      apply laneCells_congr
      intro m hm
      unfold getVectorOperandValues
      rw [List.getElem?_eq_getElem (by rw [c.operandSize]; exact hm)]
      rfl
  exact hrun 32

theorem mem_storeCells {cell : Nat × BitVec 8} : cell ∈ c.storeCells w ↔
    ∃ lane < 32, ∃ m < c.numMatrixs, ∃ k < 4,
      cell = (c.sourceByte (c.addresses w.regs) lane m k,
        getVectorOperandValues (w.regs lane) c.vector (fun _ _ => 0) m k) := by
  unfold storeCells laneCells
  simp only [List.mem_flatMap, List.mem_map, List.mem_range]
  grind

/-- The elements are written and nothing else. -/
structure StoresMatrices (c : MatrixConfig) (w : MatrixWarp) : Prop where
  regs : (c.store w).regs = w.regs
  written : ∀ m r, c.vector[m]? = some r → ∀ lane < 32, ∀ k < 4,
    (c.store w).smem (c.elementByte (c.addresses w.regs) lane m k) = w.regs lane r k
  kept : ∀ a, (∀ m < c.numMatrixs, ∀ lane < 32, ∀ k < 4,
    a ≠ c.elementByte (c.addresses w.regs) lane m k) → (c.store w).smem a = w.smem a

theorem storesMatrices (h16 : c.elementSize = 2)
    (hrows : c.RowsApart (c.addresses w.regs)) : c.StoresMatrices w := by
  obtain ⟨hregs, hsmem⟩ := store_spec h16 w
  refine ⟨hregs, fun m r hm lane hlane k hk => ?_, fun a ha => ?_⟩
  · have hlt : m < c.numMatrixs := by
      rw [← c.operandSize]
      exact (List.getElem?_eq_some_iff.mp hm).1
    have hdata : ∀ r, c.vector[m]? = some r →
        getVectorOperandValues (w.regs lane) c.vector (fun _ _ => 0) m = w.regs lane r := by
      intro r hr
      unfold getVectorOperandValues
      rw [hr]
      rfl
    rw [hsmem]
    apply ByteMemory.setCells_of_mem
    · refine mem_storeCells.mpr ⟨lane, hlane, m, hlt, k, hk, ?_⟩
      rw [hrows.sourceByte_eq hlt hlane hk, hdata r hm]
    · intro cell hcell haddr
      obtain ⟨lane', hlane', m', hlt', k', hk', rfl⟩ := mem_storeCells.mp hcell
      dsimp only at haddr ⊢
      rw [hrows.sourceByte_eq hlt' hlane' hk'] at haddr
      obtain ⟨rfl, rfl, rfl⟩ := hrows.elementByte_injective hlt' hlane' hk' hlt hlane hk haddr
      rw [hdata r hm]
  · rw [hsmem]
    apply ByteMemory.setCells_of_notMem
    intro cell hcell haddr
    obtain ⟨lane, hlane, m, hlt, k, hk, rfl⟩ := mem_storeCells.mp hcell
    dsimp only at haddr
    rw [hrows.sourceByte_eq hlt hlane hk] at haddr
    exact ha m hlt lane hlane k hk haddr.symm

/-! ### A load after a store -/

/-- A state in which `c'` finds the matrices that `c` stored from `w`, at the same addresses. -/
structure Follows (c c' : MatrixConfig) (w v : MatrixWarp) : Prop where
  numMatrixs : c'.numMatrixs = c.numMatrixs
  elementSize : c'.elementSize = c.elementSize
  smem : v.smem = (c.store w).smem
  addresses : ∀ a < 8 * c.numMatrixs, c'.addresses v.regs a = c.addresses w.regs a

/-- The byte of an element that a register of the warp holds. -/
def matrixByte (regs : Nat → MatrixReg → RegBytes) (r : MatrixReg) (row column k : Nat) : BitVec 8 :=
  regs (4 * row + column / 2) r (2 * (column % 2) + k)

/-- A load with the options of the store restores the fragments. -/
def Restores (c : MatrixConfig) (w : MatrixWarp) : Prop :=
  ∀ (c' : MatrixConfig) (v : MatrixWarp), Follows c c' w v → c'.isTranspose = c.isTranspose →
    c'.Undisturbed v → ∀ (m : Nat) (r r' : MatrixReg), c.vector[m]? = some r → c'.vector[m]? = some r' →
      ∀ lane < 32, ∀ k < 4, (c'.load v).regs lane r' k = w.regs lane r k

/-- A load without `.trans` after a store with it transposes the matrices. -/
def Transposes (c : MatrixConfig) (w : MatrixWarp) : Prop :=
  ∀ (c' : MatrixConfig) (v : MatrixWarp), Follows c c' w v → c.isTranspose = true →
    c'.isTranspose = false → c'.Undisturbed v →
      ∀ (m : Nat) (r r' : MatrixReg), c.vector[m]? = some r → c'.vector[m]? = some r' →
        ∀ row < 8, ∀ column < 8, ∀ k < 2,
          matrixByte (c'.load v).regs r' row column k = matrixByte w.regs r column row k

theorem lt_numMatrixs {r : MatrixReg} (hm : c.vector[m]? = some r) : m < c.numMatrixs := by
  rw [← c.operandSize]
  exact (List.getElem?_eq_some_iff.mp hm).1

/-- What a load finds in the place of an element that was stored. -/
theorem Follows.load {c' : MatrixConfig} {v : MatrixWarp} (h : Follows c c' w v)
    (h16 : c.elementSize = 2) (hrows : c.RowsApart (c.addresses w.regs))
    (hundisturbed : c'.Undisturbed v) {r r' : MatrixReg} (hm : c.vector[m]? = some r)
    (hm' : c'.vector[m]? = some r') {lane' k' : Nat} (hlane : lane < 32) (hk : k < 4)
    (hlane' : lane' < 32) (hk' : k' < 4)
    (hplace : c'.elementByte (c'.addresses v.regs) lane' m k' =
      c.elementByte (c.addresses w.regs) lane m k) :
    (c'.load v).regs lane' r' k' = w.regs lane r k := by
  have h16' : c'.elementSize = 2 := h.elementSize.trans h16
  rw [(loadsMatrices_iff h16').mpr hundisturbed m r' hm' lane' hlane' k' hk']
  unfold fragment
  rw [h.smem, hplace]
  exact (storesMatrices h16 hrows).written m r hm lane hlane k hk

theorem restores (h16 : c.elementSize = 2) (hrows : c.RowsApart (c.addresses w.regs)) :
    c.Restores w := by
  intro c' v h htrans hundisturbed m r r' hm hm' lane hlane k hk
  have hlt := lt_numMatrixs hm
  apply h.load h16 hrows hundisturbed hm hm' hlane hk hlane hk
  unfold elementByte
  dsimp only
  rw [htrans, h.addresses _ (by omega), h.addresses _ (by omega)]

theorem transposes (h16 : c.elementSize = 2) (hrows : c.RowsApart (c.addresses w.regs)) :
    c.Transposes w := by
  intro c' v h htrans htrans' hundisturbed m r r' hm hm' row hrow column hcolumn k hk
  have hlt := lt_numMatrixs hm
  apply h.load h16 hrows hundisturbed hm hm' (by omega) (by omega) (by omega) (by omega)
  unfold elementByte
  dsimp only
  rw [htrans, htrans', if_neg Bool.false_ne_true, if_pos rfl,
    show 8 * m + (4 * row + column / 2) / 4 = 8 * m + row by omega,
    show 2 * ((4 * column + row / 2) % 4) + (2 * (row % 2) + k) / 2 = row by omega,
    show 2 * ((4 * row + column / 2) % 4) + (2 * (column % 2) + k) / 2 = column by omega,
    show (4 * column + row / 2) / 4 = column by omega, h.addresses _ (by omega)]
  omega

/-! ### The instructions -/

theorem undisturbed_of_apart (hreg : c.addr.reg ∉ c.vector) (hnodup : c.vector.Nodup)
    (hrows : c.RowsApart (c.addresses w.regs)) : c.Undisturbed w := by
  refine ⟨fun m m' r hm hm' lane _ k _ => ?_, fun m r hm lane hlane k hk => ?_⟩
  · obtain ⟨hlt, hget⟩ := List.getElem?_eq_some_iff.mp hm
    obtain ⟨hlt', hget'⟩ := List.getElem?_eq_some_iff.mp hm'
    rw [(hnodup.getElem_inj_iff).mp (hget.trans hget'.symm)]
  · have hheld : c.heldAddresses w lane = c.addresses w.regs := by
      funext a
      unfold heldAddresses
      rw [if_neg fun hin => hreg hin.2]
    rw [hheld, hrows.sourceByte_eq (lt_numMatrixs hm.1) hlane hk]
    rfl

end MatrixConfig

/-- What the instructions do to whole matrices. -/
structure MovesMatrices (i : LdStMatrixInst) (c : MatrixConfig) (w : MatrixWarp) : Prop where
  load : handleLdmatrixInst i w = .ok (c.load w) ∧ c.LoadsMatrices w
  store : c.RowsApart (c.addresses w.regs) →
    handleStmatrixInst i w = .ok (c.store w) ∧ c.StoresMatrices w
  restores : c.RowsApart (c.addresses w.regs) → c.Restores w
  transposes : c.RowsApart (c.addresses w.regs) → c.Transposes w

/-- The instructions move whole matrices exactly if no lane of a load meets the fragment of an
earlier one in the place of a row address, or meets the same bytes there. -/
theorem movesMatrices_iff {i : LdStMatrixInst} {c : MatrixConfig} (hok : i.config = .ok c)
    (h16 : c.elementSize = 2) (w : MatrixWarp) : MovesMatrices i c w ↔ c.Undisturbed w := by
  have hload : handleLdmatrixInst i w = .ok (c.load w) := by
    unfold handleLdmatrixInst
    rw [hok]
    rfl
  have hstore : handleStmatrixInst i w = .ok (c.store w) := by
    unfold handleStmatrixInst
    rw [hok]
    rfl
  constructor
  · exact fun h => (MatrixConfig.loadsMatrices_iff h16).mp h.load.2
  · intro hundisturbed
    exact ⟨⟨hload, (MatrixConfig.loadsMatrices_iff h16).mpr hundisturbed⟩,
      fun hrows => ⟨hstore, MatrixConfig.storesMatrices h16 hrows⟩,
      MatrixConfig.restores h16, MatrixConfig.transposes h16⟩

/-- `.x1` of 16-bit elements with the address in the second register. -/
def matrixX1 (data : Nat) : LdStMatrixInst where
  options := [.sync, .aligned, .m8n8, .x1, .b16Type]
  scalarTypes := [.b16]
  vector := [⟨data, false⟩]
  addr := ⟨⟨2, false⟩, 0⟩

def matrixX1Config (data : Nat) : MatrixConfig where
  numMatrixs := 1
  isTranspose := false
  elementSize := 2
  vector := [⟨data, false⟩]
  addr := ⟨⟨2, false⟩, 0⟩
  operandSize := rfl

/-- Every lane holds the address of a row, and the first 128 bytes are ones. -/
def rowsWarp : MatrixWarp where
  regs := fun lane _ => byteOf (16 * lane)
  smem := fun a => if a < 128 then 1 else 0

theorem movesMatrices_rowsWarp : (matrixX1 1).config = .ok (matrixX1Config 1) ∧
    MovesMatrices (matrixX1 1) (matrixX1Config 1) rowsWarp := by
  have hok : (matrixX1 1).config = .ok (matrixX1Config 1) := rfl
  refine ⟨hok, (movesMatrices_iff hok rfl rowsWarp).mpr ?_⟩
  have haddresses : ∀ a < 8, (matrixX1Config 1).addresses rowsWarp.regs a = 16 * a := by decide
  apply MatrixConfig.undisturbed_of_apart (by decide) (by decide)
  refine ⟨fun a ha => ?_, fun a ha b hb hne => ?_⟩
  · have ha : a < 8 := ha
    rw [haddresses a ha]
    omega
  · have ha : a < 8 := ha
    have hb : b < 8 := hb
    rw [haddresses a ha, haddresses b hb]
    omega

/-- A load into the address register: the second lane takes the ones of the first for the address
of its row. -/
theorem not_movesMatrices : ¬ ∀ (i : LdStMatrixInst) (c : MatrixConfig) (w : MatrixWarp),
    i.config = .ok c → c.elementSize = 2 → MovesMatrices i c w := by
  intro h
  have hloads := (h (matrixX1 2) (matrixX1Config 2) rowsWarp rfl rfl).load.2
  rw [MatrixConfig.loadsMatrices_iff rfl] at hloads
  have hsource := hloads.source 0 ⟨2, false⟩ ⟨rfl, fun m' hm' => by
    rw [List.getElem?_eq_none hm']
    exact (Option.some_ne_none _).symm⟩ 1 (by decide) 0 (by decide)
  revert hsource
  decide

end FlashGpuSim
