import FlashGpuSim.Tma.TileRequests

/-!
The address generation unit: it walks a tile row by row with an odometer over the higher
dimensions, and cuts each row into requests at the request granularity and at the tensor's edge.
-/

namespace FlashGpuSim

open Lib

structure TmaAguState where
  isTensor : Bool := false
  done : Bool := true
  isFillRequest : Bool := false
  numDims : BitVec 32 := 0
  elemSize : BitVec 32 := 0
  boxDim : Nat → BitVec 32 := fun _ => 0
  globalDim : Nat → BitVec 32 := fun _ => 0
  startCoords : Nat → BitVec 32 := fun _ => 0
  globalStrides : Nat → BitVec 64 := fun _ => 0
  tileCoords : Nat → BitVec 32 := fun _ => 0
  currRowAddr : BitVec 64 := 0
  offsetInRow : BitVec 32 := 0
  rowBytes : BitVec 32 := 0
  rowIsOob : Bool := false
  validRowStartBytes : BitVec 32 := 0
  validRowEndBytes : BitVec 32 := 0
  linearAddr : BitVec 64 := 0
  linearRemaining : BitVec 32 := 0

namespace TmaAguState

/-- The byte offset of the first element from the tensor's origin, as a 64-bit number. -/
def byteOffset (strides : Nat → BitVec 64) (coords : Nat → BitVec 32) (dims : Nat) : BitVec 64 :=
  (List.range dims).foldl (fun sum d => sum + (coords d).signExtend 64 * strides d) 0

/-- The bytes of a row that are in the tensor, from the first one to the one past the last. -/
def validRow (tm : TensorMap) (coords : Nat → BitVec 32) (rowBytes : BitVec 32) :
    BitVec 32 × BitVec 32 :=
  let rowStart := (coords 0).toInt
  let rowEnd := rowStart + (tm.boxDim 0).toNat
  let validStart := max rowStart 0
  let validEnd := min rowEnd ((tm.globalDim 0).toNat : Int)
  if validStart < validEnd then
    (BitVec.ofInt 32 (validStart - rowStart) * tm.getElementSize,
      BitVec.ofInt 32 (validEnd - rowStart) * tm.getElementSize)
  else (rowBytes, rowBytes)

def initTensor (tm : TensorMap) (coords : Nat → BitVec 32) : Option TmaAguState :=
  if !tm.isValid then none
  else
    let dims := tm.numDims.toNat
    let strides := fun d => if d < dims then tm.stride d else 0
    let offset := byteOffset strides coords dims
    let rowBytes := tm.boxDim 0 * tm.getElementSize
    some {
      isTensor := true
      done := false
      numDims := tm.numDims
      elemSize := tm.getElementSize
      boxDim := fun d => if d < dims then tm.boxDim d else 0
      globalDim := fun d => if d < dims then tm.globalDim d else 0
      startCoords := fun d => if d < dims then coords d else 0
      globalStrides := strides
      currRowAddr :=
        if offset.slt 0 then tm.globalAddress - (-offset) else tm.globalAddress + offset
      rowBytes := rowBytes
      rowIsOob := (List.range' 1 (dims - 1)).any fun d =>
        (coords d).slt 0 || tm.globalDim d ≤ coords d
      validRowStartBytes := (validRow tm coords rowBytes).1
      validRowEndBytes := (validRow tm coords rowBytes).2 }

def initLinear (startAddr : BitVec 64) (totalBytes : BitVec 32) : TmaAguState where
  linearAddr := startAddr
  linearRemaining := totalBytes
  done := totalBytes == 0

/-- The increment of the coordinates from dimension `d` on, and whether all of them carried. -/
def carryCoords : Nat → Nat → TmaAguState → TmaAguState × Bool
  | 0, _, state => (state, true)
  | n + 1, d, state =>
    let coord := state.tileCoords d + 1
    let addr := state.currRowAddr + state.globalStrides d
    if coord < state.boxDim d then
      ({ state with tileCoords := Function.update state.tileCoords d coord, currRowAddr := addr },
        false)
    else
      carryCoords n (d + 1) { state with
        tileCoords := Function.update state.tileCoords d 0
        currRowAddr := addr - (state.boxDim d).setWidth 64 * state.globalStrides d }

def advanceToNextRow (state : TmaAguState) : TmaAguState :=
  let dims := state.numDims.toNat
  match carryCoords (dims - 1) 1 { state with offsetInRow := 0 } with
  | (state, true) => { state with done := true }
  | (state, false) => { state with
      rowIsOob := (List.range' 1 (dims - 1)).any fun d =>
        let coord := (state.startCoords d).toInt + (state.tileCoords d).toNat
        decide (coord < 0 ∨ coord ≥ (state.globalDim d).toNat) }

/-- The bytes from an address to the next boundary. -/
def toBoundary (addr : BitVec 64) (requestGranularity : BitVec 32) : BitVec 32 :=
  (requestGranularity.setWidth 64 - addr % requestGranularity.setWidth 64).setWidth 32

/-- The bytes of the row that are left and are all in the tensor, or all out of it. -/
def rowRemaining (state : TmaAguState) : BitVec 32 :=
  let remaining := state.rowBytes - state.offsetInRow
  if state.rowIsOob then remaining
  else if state.offsetInRow < state.validRowStartBytes then
    least remaining (state.validRowStartBytes - state.offsetInRow)
  else if state.offsetInRow < state.validRowEndBytes then
    least remaining (state.validRowEndBytes - state.offsetInRow)
  else remaining

def genNextReq (state : TmaAguState) (requestGranularity : BitVec 32) :
    TmaAguState × Option (BitVec 64 × BitVec 32) :=
  if state.done then (state, none)
  else if !state.isTensor then
    if state.linearRemaining = 0 then ({ state with done := true }, none)
    else
      let outAddr := state.linearAddr
      let outSize := least (least requestGranularity state.linearRemaining)
        (toBoundary outAddr requestGranularity)
      let remaining := state.linearRemaining - outSize
      ({ state with
          isFillRequest := false
          linearAddr := state.linearAddr + outSize.setWidth 64
          linearRemaining := remaining
          done := remaining == 0 }, some (outAddr, outSize))
  else
    let isFill := state.rowIsOob || state.offsetInRow < state.validRowStartBytes ||
      state.offsetInRow ≥ state.validRowEndBytes
    let outAddr := state.currRowAddr + state.offsetInRow.setWidth 64
    let outSize := least (least requestGranularity state.rowRemaining)
      (toBoundary outAddr requestGranularity)
    let moved := { state with
      isFillRequest := isFill
      offsetInRow := state.offsetInRow + outSize }
    (if moved.offsetInRow ≥ moved.rowBytes then moved.advanceToNextRow else moved,
      some (outAddr, outSize))

end TmaAguState

/-- A request of the unit, with the fill flag that stands after it was made. -/
structure AguRequest where
  addr : BitVec 64
  size : BitVec 32
  isFill : Bool
deriving DecidableEq, Repr

/-- The requests until the unit has no more, or none when the fuel runs out before. -/
def genRequests (requestGranularity : BitVec 32) : Nat → TmaAguState → Option (List AguRequest)
  | 0, _ => none
  | fuel + 1, state =>
    match state.genNextReq requestGranularity with
    | (_, none) => some []
    | (state, some (addr, size)) =>
      (genRequests requestGranularity fuel state).map (⟨addr, size, state.isFillRequest⟩ :: ·)

variable {tm : TensorMap} {coords : Nat → BitVec 32}

/-- The axes of `n` dimensions from `d` on. -/
def axesFrom (tm : TensorMap) (coords : Nat → BitVec 32) (d n : Nat) : List Axis :=
  (List.range' d n).map (tm.axis coords)

theorem axesFrom_succ {d n : Nat} :
    axesFrom tm coords d (n + 1) = tm.axis coords d :: axesFrom tm coords (d + 1) n := by
  unfold axesFrom
  rw [List.range'_succ, List.map_cons]

/-- The coordinates from `d` on are the digits of the number `q`. -/
def Shows (tm : TensorMap) (tile : Nat → BitVec 32) : Nat → Nat → Nat → Prop
  | _, 0, _ => True
  | d, n + 1, q => (tile d).toNat = q % (tm.boxDim d).toNat ∧
      Shows tm tile (d + 1) n (q / (tm.boxDim d).toNat)

theorem Shows.congr {tile tile' : Nat → BitVec 32} {d n q : Nat} (h : Shows tm tile d n q)
    (heq : ∀ i, d ≤ i → tile' i = tile i) : Shows tm tile' d n q := by
  induction n generalizing d q with
  | zero => trivial
  | succ n ih =>
    obtain ⟨hdigit, hrest⟩ := h
    rw [← heq d (Nat.le_refl d)] at hdigit
    exact ⟨hdigit, ih hrest fun i hi => heq i (by omega)⟩

theorem Shows.zero (d n : Nat) : Shows tm (fun _ => 0) d n 0 := by
  induction n generalizing d with
  | zero => trivial
  | succ n ih =>
    constructor
    · rw [Nat.zero_mod]
      rfl
    · rw [Nat.zero_div]
      exact ih (d + 1)

/-- A row of the tile is out of the tensor when one of its coordinates is. -/
theorem any_outside {tile start extent : Nat → BitVec 32} {d n q : Nat}
    (hstart : ∀ i, d ≤ i → i < d + n → start i = coords i)
    (hextent : ∀ i, d ≤ i → i < d + n → extent i = tm.globalDim i) (h : Shows tm tile d n q) :
    ((List.range' d n).any fun i => decide ((start i).toInt + (tile i).toNat < 0 ∨
      (start i).toInt + (tile i).toNat ≥ (extent i).toNat)) =
        !cellInside (axesFrom tm coords d n) q := by
  induction n generalizing d q with
  | zero => rfl
  | succ n ih =>
    obtain ⟨hdigit, hrest⟩ := h
    have hbox : (tm.axis coords d).box = (tm.boxDim d).toNat := rfl
    rw [List.range'_succ, List.any_cons, ih (fun i hi hn => hstart i (by omega) (by omega))
      (fun i hi hn => hextent i (by omega) (by omega)) hrest, axesFrom_succ]
    simp only [cellInside, hbox, Bool.not_and]
    congr 1
    rw [hdigit, hstart d (Nat.le_refl d) (by omega), hextent d (Nat.le_refl d) (by omega)]
    apply Bool.eq_iff_iff.mpr
    rw [decide_eq_true_eq, Bool.not_eq_true', ← Bool.not_eq_true, Axis.holds_iff]
    simp only [TensorMap.axis]
    omega

/-- The axes of a row, and those of the rows. -/
theorem axes_eq : tm.axes coords =
    tm.axesTo coords 0 ++ axesFrom tm coords 1 tm.tensorRank.toNat := by
  unfold TensorMap.axes TensorMap.axesTo axesFrom
  rw [List.range_eq_range', List.range'_succ]
  rfl

theorem tileBytes_eq : tm.tileBytes coords =
    tm.rowBytes * boxCells (axesFrom tm coords 1 tm.tensorRank.toNat) := by
  unfold TensorMap.tileBytes
  rw [axes_eq, boxCells_split, TensorMap.boxCells_axesTo_zero]

theorem byteInside_eq (p : Nat) : tm.byteInside coords p =
    (cellInside (tm.axesTo coords 0) (p % tm.rowBytes) &&
      cellInside (axesFrom tm coords 1 tm.tensorRank.toNat) (p / tm.rowBytes)) := by
  unfold TensorMap.byteInside
  rw [axes_eq, cellInside_split, TensorMap.boxCells_axesTo_zero]

/-- The global address of the first byte of a row of the tile. -/
def rowAddress (tm : TensorMap) (coords : Nat → BitVec 32) (row : Nat) : BitVec 64 :=
  tm.globalAddress + BitVec.ofInt 64 ((coords 0).toInt * tm.getElementSize.toNat +
    cellPlace (axesFrom tm coords 1 tm.tensorRank.toNat) row)

theorem byteAddress_eq (hrow : 0 < tm.rowBytes) (p : Nat) : tm.byteAddress coords p =
    rowAddress tm coords (p / tm.rowBytes) + BitVec.ofNat 64 (p % tm.rowBytes) := by
  have hsum : ∀ a b c : Int, a + b + c = a + c + b := fun a b c => by ring
  unfold TensorMap.byteAddress rowAddress
  rw [axes_eq, cellPlace_split, TensorMap.boxCells_axesTo_zero, cellPlace_row (Nat.mod_lt p hrow),
    hsum, BitVec.ofInt_add, BitVec.ofInt_natCast, BitVec.add_assoc]

/-- The addresses in a row follow each other. -/
theorem byteAddress_add {p k : Nat} (hk : p % tm.rowBytes + k < tm.rowBytes) :
    tm.byteAddress coords (p + k) = tm.byteAddress coords p + BitVec.ofNat 64 k := by
  have hrow : 0 < tm.rowBytes := Nat.zero_lt_of_lt hk
  obtain ⟨hmod, hdiv⟩ := layer_within hk
  rw [byteAddress_eq hrow, byteAddress_eq hrow, hmod, hdiv, BitVec.ofNat_add]
  ac_rfl

namespace TmaAguState

/-- The unit has the extents and the strides of the tensor map in its state. -/
structure Loaded (tm : TensorMap) (coords : Nat → BitVec 32) (state : TmaAguState) : Prop where
  tensor : state.isTensor = true
  dims : state.numDims = tm.numDims
  box : ∀ d < tm.numDims.toNat, state.boxDim d = tm.boxDim d
  extent : ∀ d < tm.numDims.toNat, state.globalDim d = tm.globalDim d
  start : ∀ d < tm.numDims.toNat, state.startCoords d = coords d
  stride : ∀ d < tm.numDims.toNat, state.globalStrides d = tm.stride d
  row : state.rowBytes.toNat = tm.rowBytes
  valid : ∀ x < tm.rowBytes,
    state.validRowStartBytes.toNat ≤ x ∧ x < state.validRowEndBytes.toNat ↔
      cellInside (tm.axesTo coords 0) x = true

variable {state : TmaAguState}

/-- The odometer shows the next row, and the address of the row follows it. -/
theorem carryCoords_spec {n d q : Nat} (hbox : ∀ i, d ≤ i → i < d + n → state.boxDim i = tm.boxDim i)
    (hstride : ∀ i, d ≤ i → i < d + n → state.globalStrides i = tm.stride i)
    (hpos : ∀ i, d ≤ i → i < d + n → 0 < (tm.boxDim i).toNat)
    (hshows : Shows tm state.tileCoords d n q) (hq : q < boxCells (axesFrom tm coords d n)) :
    let next := carryCoords n d state
    (∃ tile, next.1 = { state with tileCoords := tile, currRowAddr := next.1.currRowAddr } ∧
      ∀ i < d, tile i = state.tileCoords i) ∧
    (q + 1 < boxCells (axesFrom tm coords d n) → next.2 = false ∧
      Shows tm next.1.tileCoords d n (q + 1) ∧
      next.1.currRowAddr = state.currRowAddr + BitVec.ofInt 64
        (cellPlace (axesFrom tm coords d n) (q + 1) - cellPlace (axesFrom tm coords d n) q)) ∧
    (q + 1 = boxCells (axesFrom tm coords d n) → next.2 = true) := by
  dsimp only
  induction n generalizing d q state with
  | zero =>
    refine ⟨⟨state.tileCoords, rfl, fun _ _ => rfl⟩, fun hlt => ?_, fun _ => rfl⟩
    exact absurd hlt (by simp [axesFrom])
  | succ n ih =>
    obtain ⟨hdigit, hrest⟩ := hshows
    have hboxd := hbox d (Nat.le_refl d) (by omega)
    have hstrided := hstride d (Nat.le_refl d) (by omega)
    have hposd := hpos d (Nat.le_refl d) (by omega)
    have hbound := (state.boxDim d).isLt
    have hmod := Nat.mod_lt q hposd
    have hcoord : (state.tileCoords d + 1).toNat = q % (tm.boxDim d).toNat + 1 := by
      have hone : (1 : BitVec 32).toNat = 1 := rfl
      rw [BitVec.toNat_add, hone, hdigit]
      rw [hboxd] at hbound
      omega
    have hcells : q / (tm.boxDim d).toNat < boxCells (axesFrom tm coords (d + 1) n) := by
      rw [axesFrom_succ, boxCells_cons] at hq
      exact Nat.div_lt_of_lt_mul hq
    have hsplit := Nat.div_add_mod q (tm.boxDim d).toNat
    rw [axesFrom_succ, boxCells_cons]
    have haxis : (tm.axis coords d).box = (tm.boxDim d).toNat := rfl
    have hword : BitVec.ofInt 64 ((tm.axis coords d).stride : Int) = tm.stride d := by
      simp [TensorMap.axis]
    rw [haxis]
    unfold carryCoords
    dsimp only
    split
    · rename_i hlt
      have hlt : q % (tm.boxDim d).toNat + 1 < (tm.boxDim d).toNat := by
        rw [BitVec.lt_def, hcoord, hboxd] at hlt
        exact hlt
      obtain ⟨hnextmod, hnextdiv⟩ := Odometer.succ_of_lt (q := q / (tm.boxDim d).toNat) hlt
      rw [hsplit] at hnextmod hnextdiv
      have hmul := Nat.mul_le_mul_left (tm.boxDim d).toNat hcells
      rw [Nat.mul_succ] at hmul
      refine ⟨⟨_, rfl, fun i hi => Function.update_of_ne (Nat.ne_of_lt hi) _ _⟩,
        fun _ => ⟨rfl, ⟨?_, ?_⟩, ?_⟩, fun hlast => absurd hlast (by omega)⟩
      · dsimp only
        rw [Function.update_self, hcoord, hnextmod]
      · rw [hnextdiv]
        exact hrest.congr fun i hi => Function.update_of_ne (by omega) _ _
      · rw [cellPlace_succ (by rw [haxis]; exact hlt), add_sub_cancel_left, hword, hstrided]
    · rename_i hge
      have hlast : q % (tm.boxDim d).toNat + 1 = (tm.boxDim d).toNat := by
        rw [BitVec.lt_def, hcoord, hboxd] at hge
        omega
      obtain ⟨hnextmod, hnextdiv⟩ :=
        Odometer.succ_of_carry (q := q / (tm.boxDim d).toNat) hposd hlast
      rw [hsplit] at hnextmod hnextdiv
      have hnext : q + 1 = (tm.boxDim d).toNat * (q / (tm.boxDim d).toNat + 1) := by
        rw [Nat.mul_succ]
        omega
      obtain ⟨⟨tile, hstate, htile⟩, hmore, hdone⟩ := @ih { state with
            tileCoords := Function.update state.tileCoords d 0
            currRowAddr := state.currRowAddr + state.globalStrides d -
              (state.boxDim d).setWidth 64 * state.globalStrides d }
        (d + 1) (q / (tm.boxDim d).toNat)
        (fun i hi hn => hbox i (by omega) (by omega))
        (fun i hi hn => hstride i (by omega) (by omega))
        (fun i hi hn => hpos i (by omega) (by omega))
        (hrest.congr fun i hi => Function.update_of_ne (by omega) _ _) hcells
      refine ⟨⟨tile, hstate, fun i hi => ?_⟩, fun hlt => ?_, fun heq => ?_⟩
      · rw [htile i (Nat.lt_succ_of_lt hi)]
        exact Function.update_of_ne (Nat.ne_of_lt hi) _ _
      · rw [hnext] at hlt
        obtain ⟨hfalse, hshow, haddr⟩ := hmore (Nat.lt_of_mul_lt_mul_left hlt)
        refine ⟨hfalse, ⟨?_, ?_⟩, ?_⟩
        · rw [hstate, hnextmod]
          dsimp only
          rw [htile d (Nat.lt_succ_self d)]
          dsimp only
          rw [Function.update_self]
          rfl
        · rw [hnextdiv]
          exact hshow
        · have hbox64 : (state.boxDim d).setWidth 64 =
              BitVec.ofInt 64 ((tm.boxDim d).toNat : Int) := by
            rw [hboxd]
            simp
          have hplace : ∀ place delta step : Int, place + step - (tm.boxDim d).toNat * step + delta -
              place = step + (-((tm.boxDim d).toNat * step) + delta) := by
            intros
            ring
          rw [haddr, cellPlace_carry (by rw [haxis]; exact hposd) (by rw [haxis]; exact hlast),
            haxis, hplace, BitVec.ofInt_add, BitVec.ofInt_add, BitVec.ofInt_neg, BitVec.ofInt_mul,
            hword, ← hbox64, hstrided, BitVec.sub_eq_add_neg, BitVec.add_assoc, BitVec.add_assoc]
      · rw [hnext] at heq
        exact hdone (Nat.eq_of_mul_eq_mul_left hposd heq)

/-- The unit stands at an offset of the tile. -/
structure At (tm : TensorMap) (coords : Nat → BitVec 32) (p : Nat) (state : TmaAguState) : Prop where
  loaded : state.Loaded tm coords
  running : state.done = false
  offset : state.offsetInRow.toNat = p % tm.rowBytes
  shows : Shows tm state.tileCoords 1 tm.tensorRank.toNat (p / tm.rowBytes)
  addr : state.currRowAddr = rowAddress tm coords (p / tm.rowBytes)
  oob : state.rowIsOob =
    !cellInside (axesFrom tm coords 1 tm.tensorRank.toNat) (p / tm.rowBytes)

variable {p : Nat}

/-- The fill flag says that the byte is out of the tensor. -/
theorem At.isFill (h : state.At tm coords p) (hrow : 0 < tm.rowBytes) :
    (state.rowIsOob || state.offsetInRow < state.validRowStartBytes ||
      state.offsetInRow ≥ state.validRowEndBytes) = !tm.byteInside coords p := by
  have hvalid := h.loaded.valid (p % tm.rowBytes) (Nat.mod_lt p hrow)
  have hrowin : (decide (state.offsetInRow < state.validRowStartBytes) ||
      decide (state.offsetInRow ≥ state.validRowEndBytes)) =
        !cellInside (tm.axesTo coords 0) (p % tm.rowBytes) := by
    apply Bool.eq_iff_iff.mpr
    rw [Bool.not_eq_true', ← Bool.not_eq_true, ← hvalid, Bool.or_eq_true, decide_eq_true_eq,
      decide_eq_true_eq, BitVec.lt_def, ge_iff_le, BitVec.le_def, h.offset]
    omega
  rw [byteInside_eq, h.oob, Bool.or_assoc, hrowin, Bool.not_and, Bool.or_comm]

/-- The bytes up to the end of the row, or to the edge of the tensor, are all on one side of the
edge. -/
theorem At.rowRemaining (h : state.At tm coords p) (hrow : 0 < tm.rowBytes) :
    0 < state.rowRemaining.toNat ∧ p % tm.rowBytes + state.rowRemaining.toNat ≤ tm.rowBytes ∧
      ∀ k < state.rowRemaining.toNat, tm.byteInside coords (p + k) = tm.byteInside coords p := by
  have hoff := h.offset
  have hlt := Nat.mod_lt p hrow
  have hrest : (state.rowBytes - state.offsetInRow).toNat = tm.rowBytes - p % tm.rowBytes := by
    rw [BitVec.toNat_sub_of_le (BitVec.le_def.mpr (by rw [h.loaded.row]; omega)), h.loaded.row, hoff]
  have hside : ∀ k, p % tm.rowBytes + k < tm.rowBytes →
      (state.rowIsOob = true ∨
        ((state.validRowStartBytes.toNat ≤ p % tm.rowBytes + k ∧
          p % tm.rowBytes + k < state.validRowEndBytes.toNat) ↔
        (state.validRowStartBytes.toNat ≤ p % tm.rowBytes ∧
          p % tm.rowBytes < state.validRowEndBytes.toNat))) →
      tm.byteInside coords (p + k) = tm.byteInside coords p := by
    intro k hk hcase
    obtain ⟨hmod, hdiv⟩ := layer_within hk
    rw [byteInside_eq, byteInside_eq, hmod, hdiv]
    rcases hcase with hout | hsame
    · have hnot := h.oob
      rw [hout] at hnot
      rw [← Bool.not_eq_eq_eq_not.mpr hnot]
      simp
    · congr 1
      apply Bool.eq_iff_iff.mpr
      rw [← h.loaded.valid _ hk, ← h.loaded.valid _ hlt]
      exact hsame
  unfold TmaAguState.rowRemaining
  dsimp only
  split
  · rename_i hout
    rw [hrest]
    exact ⟨by omega, by omega, fun k hk => hside k (by omega) (.inl hout)⟩
  · split
    · rename_i hbefore
      rw [BitVec.lt_def, hoff] at hbefore
      have hedge : (state.validRowStartBytes - state.offsetInRow).toNat =
          state.validRowStartBytes.toNat - p % tm.rowBytes := by
        rw [BitVec.toNat_sub_of_le (BitVec.le_def.mpr (by omega)), hoff]
      rw [least_toNat, hrest, hedge]
      exact ⟨by omega, by omega, fun k hk => hside k (by omega) (.inr (by omega))⟩
    · rename_i hbefore
      rw [BitVec.lt_def, hoff] at hbefore
      split
      · rename_i hwithin
        rw [BitVec.lt_def, hoff] at hwithin
        have hedge : (state.validRowEndBytes - state.offsetInRow).toNat =
            state.validRowEndBytes.toNat - p % tm.rowBytes := by
          rw [BitVec.toNat_sub_of_le (BitVec.le_def.mpr (by omega)), hoff]
        rw [least_toNat, hrest, hedge]
        exact ⟨by omega, by omega, fun k hk => hside k (by omega) (.inr (by omega))⟩
      · rename_i hwithin
        rw [BitVec.lt_def, hoff] at hwithin
        rw [hrest]
        exact ⟨by omega, by omega, fun k hk => hside k (by omega) (.inr (by omega))⟩

theorem toBoundary_toNat (addr : BitVec 64) {g : BitVec 32} (hg : 0 < g.toNat) :
    (toBoundary addr g).toNat = g.toNat - addr.toNat % g.toNat := by
  have hwide : (g.setWidth 64).toNat = g.toNat := by
    rw [BitVec.toNat_setWidth]
    omega
  have hmod : (addr % g.setWidth 64).toNat = addr.toNat % g.toNat := by
    rw [BitVec.toNat_umod, hwide]
  have hlt := Nat.mod_lt addr.toNat hg
  unfold toBoundary
  rw [BitVec.toNat_setWidth, BitVec.toNat_sub_of_le (BitVec.le_def.mpr (by omega)), hwide, hmod]
  omega

/-- The end of a row: the unit goes to the next one, or it is done. -/
theorem advanceToNextRow_spec (ht : tm.IsTile coords) (hloaded : state.Loaded tm coords)
    (hrun : state.done = false) {q : Nat}
    (hshows : Shows tm state.tileCoords 1 tm.tensorRank.toNat q)
    (haddr : state.currRowAddr = rowAddress tm coords q)
    (hq : q < boxCells (axesFrom tm coords 1 tm.tensorRank.toNat)) :
    let next := state.advanceToNextRow
    next.isFillRequest = state.isFillRequest ∧
    (q + 1 < boxCells (axesFrom tm coords 1 tm.tensorRank.toNat) →
      ∀ p, p % tm.rowBytes = 0 → p / tm.rowBytes = q + 1 → next.At tm coords p) ∧
    (q + 1 = boxCells (axesFrom tm coords 1 tm.tensorRank.toNat) → next.done = true) := by
  have hdims := TensorMap.numDims_toNat ht.valid
  have hrank : state.numDims.toNat - 1 = tm.tensorRank.toNat := by
    rw [hloaded.dims]
    omega
  obtain ⟨⟨tile, hstate, -⟩, hmore, hlast⟩ :=
    @carryCoords_spec tm coords { state with offsetInRow := 0 } tm.tensorRank.toNat 1 q
      (fun i _ hi => hloaded.box i (by omega)) (fun i _ hi => hloaded.stride i (by omega))
      (fun i _ hi => ht.boxes i (by omega)) hshows hq
  dsimp only at hmore ⊢
  unfold advanceToNextRow
  dsimp only
  rw [hrank]
  generalize carryCoords tm.tensorRank.toNat 1 { state with offsetInRow := 0 } = carried at *
  obtain ⟨next, done⟩ := carried
  dsimp only at hstate hmore hlast
  generalize next.currRowAddr = addr at hstate hmore
  subst hstate
  cases done with
  | true =>
    refine ⟨rfl, fun hlt => ?_, fun _ => rfl⟩
    exact absurd (hmore hlt).1.symm Bool.false_ne_true
  | false =>
    refine ⟨rfl, fun hlt p hmod hdiv => ?_, fun heq => ?_⟩
    · obtain ⟨-, hshow, hnext⟩ := hmore hlt
      dsimp only at hshow hnext
      have hnextrow : addr = rowAddress tm coords (q + 1) := by
        have hplace : ∀ start first second : Int,
            start + first + (second - first) = start + second := by
          intros
          ring
        rw [hnext, haddr]
        unfold rowAddress
        rw [BitVec.add_assoc, ← BitVec.ofInt_add, hplace]
      have hrows : ((List.range' 1 tm.tensorRank.toNat).any fun d =>
          decide ((state.startCoords d).toInt + (tile d).toNat < 0 ∨
            (state.startCoords d).toInt + (tile d).toNat ≥ (state.globalDim d).toNat)) =
              !cellInside (axesFrom tm coords 1 tm.tensorRank.toNat) (q + 1) :=
        any_outside (fun d _ hd => hloaded.start d (by omega))
          (fun d _ hd => hloaded.extent d (by omega)) hshow
      exact ⟨⟨hloaded.tensor, hloaded.dims, hloaded.box, hloaded.extent, hloaded.start,
        hloaded.stride, hloaded.row, hloaded.valid⟩, hrun, hmod.symm, hdiv.symm ▸ hshow,
        hdiv.symm ▸ hnextrow, hdiv.symm ▸ hrows⟩
    · exact absurd (hlast heq) Bool.false_ne_true

/-- A request: it takes bytes from the unit's place on, all of them in the tensor or all of them
out of it, and up to a boundary at most. -/
theorem At.genNextReq (ht : tm.IsTile coords) (h : state.At tm coords p)
    (hp : p < tm.tileBytes coords) {g : BitVec 32} (hg : 0 < g.toNat) :
    ∃ next size, state.genNextReq g = (next, some (tm.byteAddress coords p, size)) ∧
      0 < size.toNat ∧ (tm.byteAddress coords p).toNat % g.toNat + size.toNat ≤ g.toNat ∧
      p % tm.rowBytes + size.toNat ≤ tm.rowBytes ∧ p + size.toNat ≤ tm.tileBytes coords ∧
      (∀ k < size.toNat, tm.byteInside coords (p + k) = !next.isFillRequest) ∧
      (p + size.toNat < tm.tileBytes coords → next.At tm coords (p + size.toNat)) ∧
      (p + size.toNat = tm.tileBytes coords → next.done = true) := by
  have hrow := ht.rowBytes_pos
  obtain ⟨hpos, hwithin, hside⟩ := h.rowRemaining hrow
  have haddr : state.currRowAddr + state.offsetInRow.setWidth 64 = tm.byteAddress coords p := by
    have hoffset : state.offsetInRow.setWidth 64 = BitVec.ofNat 64 (p % tm.rowBytes) := by
      rw [← h.offset]
      apply BitVec.eq_of_toNat_eq
      simp
    rw [byteAddress_eq hrow, h.addr, hoffset]
  generalize hsize : least (least g state.rowRemaining) (toBoundary (tm.byteAddress coords p) g) =
    size
  have hmod := Nat.mod_lt (tm.byteAddress coords p).toNat hg
  have hn : size.toNat = min (min g.toNat state.rowRemaining.toNat)
      (g.toNat - (tm.byteAddress coords p).toNat % g.toNat) := by
    rw [← hsize, least_toNat, least_toNat, toBoundary_toNat _ hg]
  have hq : p / tm.rowBytes < boxCells (axesFrom tm coords 1 tm.tensorRank.toNat) := by
    rw [tileBytes_eq] at hp
    exact Nat.div_lt_of_lt_mul hp
  have hfits : p + size.toNat ≤ tm.tileBytes coords := by
    have hsplit := Nat.div_add_mod p tm.rowBytes
    have hmul := Nat.mul_le_mul_left tm.rowBytes hq
    rw [Nat.mul_succ] at hmul
    rw [tileBytes_eq]
    omega
  have hnext : (state.offsetInRow + size).toNat = p % tm.rowBytes + size.toNat := by
    have hlt := ht.rowBytes_lt
    rw [BitVec.toNat_add, h.offset]
    omega
  have hreq : state.genNextReq g =
      (let moved := { state with
        isFillRequest := !tm.byteInside coords p
        offsetInRow := state.offsetInRow + size }
      if moved.offsetInRow ≥ moved.rowBytes then moved.advanceToNextRow else moved,
        some (tm.byteAddress coords p, size)) := by
    unfold TmaAguState.genNextReq
    rw [h.running, h.loaded.tensor, if_neg Bool.false_ne_true, if_neg (by decide)]
    dsimp only
    rw [haddr, hsize, h.isFill hrow]
  refine ⟨_, size, hreq, by omega, by omega, by omega, hfits, ?_⟩
  dsimp only
  have hmoved : Loaded tm coords { state with
      isFillRequest := !tm.byteInside coords p
      offsetInRow := state.offsetInRow + size } :=
    ⟨h.loaded.tensor, h.loaded.dims, h.loaded.box, h.loaded.extent, h.loaded.start,
      h.loaded.stride, h.loaded.row, h.loaded.valid⟩
  split
  · rename_i hend
    rw [ge_iff_le, BitVec.le_def, h.loaded.row, hnext] at hend
    obtain ⟨hmod', hdiv'⟩ := layer_end hrow (by omega : p % tm.rowBytes + size.toNat = tm.rowBytes)
    obtain ⟨hfill, hmore, hlast⟩ := advanceToNextRow_spec ht hmoved h.running h.shows h.addr hq
    refine ⟨fun k hk => ?_, fun hlt => ?_, fun heq => ?_⟩
    · rw [hfill, Bool.not_not]
      exact hside k (by omega)
    · apply hmore _ _ hmod' hdiv'
      rw [← hdiv']
      exact Nat.div_lt_of_lt_mul (hlt.trans_eq tileBytes_eq)
    · apply hlast
      rw [← hdiv', heq, tileBytes_eq]
      exact Nat.mul_div_cancel_left _ hrow
  · rename_i hend
    rw [ge_iff_le, BitVec.le_def, h.loaded.row, hnext] at hend
    obtain ⟨hmod', hdiv'⟩ := layer_within (by omega : p % tm.rowBytes + size.toNat < tm.rowBytes)
    refine ⟨fun k hk => ?_, fun _ => ?_, fun heq => ?_⟩
    · rw [Bool.not_not]
      exact hside k (by omega)
    · exact ⟨hmoved, h.running, by rw [hmod', hnext], hdiv'.symm ▸ h.shows, hdiv'.symm ▸ h.addr,
        hdiv'.symm ▸ h.oob⟩
    · rw [tileBytes_eq] at heq
      rw [heq, Nat.mul_mod_right] at hmod'
      omega

/-- The interval of a row that is in the tensor. -/
theorem validRow_spec (ht : tm.IsTile coords) {row : BitVec 32} (hrow : row.toNat = tm.rowBytes)
    {x : Nat} (hx : x < tm.rowBytes) :
    (validRow tm coords row).1.toNat ≤ x ∧ x < (validRow tm coords row).2.toNat ↔
      cellInside (tm.axesTo coords 0) x = true := by
  have hfits := ht.rowBytes_lt
  have hle := tm.trailing_le coords
  rw [cellInside_row hx, decide_eq_true_eq]
  unfold validRow
  dsimp only
  split
  · rename_i hvalid
    have hword : ∀ (k : Int) (n : Nat), k * tm.getElementSize.toNat = n → n < 2 ^ 32 →
        (BitVec.ofInt 32 k * tm.getElementSize).toNat = n := by
      intro k n hk hn
      have helem : tm.getElementSize = BitVec.ofInt 32 (tm.getElementSize.toNat : Int) := by simp
      conv_lhs => rw [helem]
      rw [← BitVec.ofInt_mul, hk, BitVec.ofInt_natCast, BitVec.toNat_ofNat, Nat.mod_eq_of_lt hn]
    have hlead := @leading_cast tm coords
    have htrail := trailing_cast hvalid
    have hlt : tm.leading coords < tm.trailing coords := leading_lt_trailing hvalid
    rw [hword _ _ hlead (by omega), hword _ _ htrail (by omega)]
  · rename_i hvalid
    have hnone := trailing_le_leading (Int.not_lt.mp hvalid)
    rw [hrow]
    omega

theorem byteOffset_spec {strides : Nat → BitVec 64} {d n : Nat}
    (hstrides : ∀ i, d ≤ i → i < d + n → strides i = tm.stride i) (sum : BitVec 64) :
    (List.range' d n).foldl (fun sum i => sum + (coords i).signExtend 64 * strides i) sum =
      sum + BitVec.ofInt 64 (cellPlace (axesFrom tm coords d n) 0) := by
  induction n generalizing d sum with
  | zero => simp [axesFrom, cellPlace]
  | succ n ih =>
    have hword : BitVec.ofInt 64 ((tm.stride d).toNat : Int) = tm.stride d := by simp
    rw [List.range'_succ, List.foldl_cons, ih fun i hi hn => hstrides i (by omega) (by omega),
      hstrides d (Nat.le_refl d) (by omega), axesFrom_succ]
    simp only [cellPlace, TensorMap.axis, Nat.zero_mod, Nat.zero_div, Nat.cast_zero, add_zero]
    rw [BitVec.ofInt_add, BitVec.ofInt_mul, hword, BitVec.add_assoc]
    rfl

/-- The unit begins at the first byte of the tile. -/
theorem initTensor_at (ht : tm.IsTile coords) :
    ∃ state, initTensor tm coords = some state ∧ state.At tm coords 0 := by
  have hdims := TensorMap.numDims_toNat ht.valid
  have hrow := ht.rowBytes_pos
  have hfits := ht.rowBytes_lt
  unfold initTensor
  rw [if_neg (by rw [ht.valid]; decide)]
  have hbytes : (tm.boxDim 0 * tm.getElementSize).toNat = tm.rowBytes := by
    rw [BitVec.toNat_mul, Nat.mul_comm]
    exact Nat.mod_eq_of_lt hfits
  have hstride : ∀ d < tm.numDims.toNat,
      (fun d => if d < tm.numDims.toNat then tm.stride d else 0) d = tm.stride d :=
    fun d hd => if_pos hd
  refine ⟨_, rfl, ?_, rfl, ?_, ?_, ?_, ?_⟩
  · exact ⟨rfl, rfl, fun d hd => if_pos hd, fun d hd => if_pos hd, fun d hd => if_pos hd, hstride,
      hbytes, fun x hx => validRow_spec ht hbytes hx⟩
  · rw [Nat.zero_mod]
    rfl
  · rw [Nat.zero_div]
    exact Shows.zero 1 _
  · have hback : ∀ x : BitVec 64, tm.globalAddress - (-x) = tm.globalAddress + x := by
      intro x
      rw [BitVec.sub_eq_add_neg, BitVec.neg_neg]
    dsimp only
    rw [hback, ite_self, Nat.zero_div]
    unfold rowAddress byteOffset
    rw [List.range_eq_range', byteOffset_spec fun d _ hd => hstride d (by omega), hdims,
      axesFrom_succ]
    simp only [cellPlace, TensorMap.axis, Nat.zero_mod, Nat.zero_div, Nat.cast_zero, add_zero,
      TensorMap.stride_zero, BitVec.zero_add, BitVec.ofNat_eq_ofNat]
  · have hsame : (fun d => (coords d).slt 0 || decide (tm.globalDim d ≤ coords d)) =
        fun d => decide ((coords d).toInt + ((0 : BitVec 32).toNat : Int) < 0 ∨
          (coords d).toInt + ((0 : BitVec 32).toNat : Int) ≥ (tm.globalDim d).toNat) := by
      funext d
      apply Bool.eq_iff_iff.mpr
      rw [Bool.or_eq_true, BitVec.slt_iff_toInt_lt, decide_eq_true_eq, decide_eq_true_eq,
        BitVec.le_def]
      have hint := BitVec.toInt_eq_toNat_cond (coords d)
      have hlt := (tm.globalDim d).isLt
      have hzero : (0 : BitVec 32).toNat = 0 := rfl
      have hzero' : (0 : BitVec 32).toInt = 0 := rfl
      rw [hzero, hzero']
      split at hint <;> omega
    have hrank : tm.numDims.toNat - 1 = tm.tensorRank.toNat := by omega
    dsimp only
    rw [hsame, hrank, Nat.zero_div]
    exact any_outside (fun _ _ _ => rfl) (fun _ _ _ => rfl) (Shows.zero 1 _)

end TmaAguState

/-- The bytes of a request: their addresses, and whether they are filled in. -/
def AguRequest.bytes (r : AguRequest) : List (BitVec 64 × Bool) :=
  (List.range r.size.toNat).map fun k => (r.addr + BitVec.ofNat 64 k, r.isFill)

/-- The bytes of the tile from an offset on. -/
def bytesFrom (tm : TensorMap) (coords : Nat → BitVec 32) (p : Nat) : List (BitVec 64 × Bool) :=
  (List.range' p (tm.tileBytes coords - p)).map fun o =>
    (tm.byteAddress coords o, !tm.byteInside coords o)

/-- From any place of the tile the unit requests the rest of the tile. -/
theorem TmaAguState.At.genRequests (ht : tm.IsTile coords) {g : BitVec 32} (hg : 0 < g.toNat)
    {fuel p : Nat} {state : TmaAguState} (h : state.At tm coords p) (hp : p < tm.tileBytes coords)
    (hfuel : tm.tileBytes coords - p < fuel) :
    ∃ requests, FlashGpuSim.genRequests g fuel state = some requests ∧
      requests.flatMap AguRequest.bytes = bytesFrom tm coords p ∧
      ∀ r ∈ requests, 0 < r.size.toNat ∧ r.addr.toNat % g.toNat + r.size.toNat ≤ g.toNat := by
  induction fuel generalizing p state with
  | zero => exact absurd hfuel (Nat.not_lt_zero _)
  | succ fuel ih =>
    obtain ⟨next, size, hreq, hpos, hline, hrow, hfits, hside, hmore, hlast⟩ :=
      h.genNextReq ht hp hg
    have hbytes : (⟨tm.byteAddress coords p, size, next.isFillRequest⟩ : AguRequest).bytes =
        (List.range' p size.toNat).map fun o =>
          (tm.byteAddress coords o, !tm.byteInside coords o) := by
      rw [List.range'_eq_map_range, List.map_map]
      apply List.map_congr_left
      intro k hk
      have hk : k < size.toNat := List.mem_range.mp hk
      simp only [Function.comp_apply]
      rw [byteAddress_add (by omega), hside k hk, Bool.not_not]
    have hfirst : ∀ requests,
        (⟨tm.byteAddress coords p, size, next.isFillRequest⟩ :: requests).flatMap
            AguRequest.bytes =
          ((List.range' p size.toNat).map fun o =>
            (tm.byteAddress coords o, !tm.byteInside coords o)) ++
              requests.flatMap AguRequest.bytes := by
      intro requests
      rw [List.flatMap_cons, hbytes]
    unfold FlashGpuSim.genRequests
    rw [hreq]
    dsimp only
    rcases Nat.lt_or_ge (p + size.toNat) (tm.tileBytes coords) with hlt | hge
    · obtain ⟨requests, hrun, hrest, hlines⟩ := ih (hmore hlt) hlt (by omega)
      have hsum : tm.tileBytes coords - p =
          size.toNat + (tm.tileBytes coords - (p + size.toNat)) := by omega
      refine ⟨_, by rw [hrun]; rfl, ?_, ?_⟩
      · rw [hfirst, hrest]
        unfold bytesFrom
        rw [hsum, ← List.range'_append_1, List.map_append]
      · intro r hr
        rcases List.mem_cons.mp hr with rfl | hr
        · exact ⟨hpos, hline⟩
        · exact hlines r hr
    · have heq : p + size.toNat = tm.tileBytes coords := by omega
      have hend : FlashGpuSim.genRequests g fuel next = some [] := by
        obtain ⟨fuel, rfl⟩ : ∃ n, fuel = n + 1 := Nat.exists_eq_succ_of_ne_zero (by omega)
        unfold FlashGpuSim.genRequests TmaAguState.genNextReq
        rw [if_pos (hlast heq)]
      refine ⟨_, by rw [hend]; rfl, ?_, ?_⟩
      · have hsum : tm.tileBytes coords - p = size.toNat := by omega
        rw [hfirst]
        unfold bytesFrom
        rw [hsum, List.flatMap_nil, List.append_nil]
      · intro r hr
        rw [List.mem_singleton.mp hr]
        exact ⟨hpos, hline⟩

/-- The addresses that are not filled in. -/
theorem flatMap_not_fill (requests : List AguRequest) :
    (requests.filter fun r => !r.isFill).flatMap (fun r => r.bytes.map Prod.fst) =
      ((requests.flatMap AguRequest.bytes).filter fun b => !b.2).map Prod.fst := by
  induction requests with
  | nil => rfl
  | cons r requests ih =>
    rw [List.flatMap_cons, List.filter_append, List.map_append, ← ih]
    cases hfill : r.isFill with
    | true =>
      have hnone : r.bytes.filter (fun b => !b.2) = [] := by
        apply List.filter_eq_nil_iff.mpr
        intro b hb
        obtain ⟨k, _, rfl⟩ := List.mem_map.mp hb
        simp [hfill]
      rw [List.filter_cons_of_neg (by simp [hfill]), hnone, List.map_nil, List.nil_append]
    | false =>
      have hall : r.bytes.filter (fun b => !b.2) = r.bytes := by
        apply List.filter_eq_self.mpr
        intro b hb
        obtain ⟨k, _, rfl⟩ := List.mem_map.mp hb
        simp [hfill]
      rw [List.filter_cons_of_pos (by simp [hfill]), hall, List.flatMap_cons]

/-- The unit and the functional copy take the same bytes: the unit's requests end, they hold the
tile byte by byte, each of them stays within a boundary, and a request is a fill exactly where the
element is outside of the tensor. -/
theorem agu_agrees_with_tile (ht : tm.IsTile coords) {g : BitVec 32}
    (hg : g = 32 ∨ g = 64 ∨ g = 128) :
    ∃ state requests, TmaAguState.initTensor tm coords = some state ∧
      genRequests g (tm.getTileSizeBytes.toNat + 1) state = some requests ∧
      (requests.map fun r => r.size.toNat).sum = tm.getTileSizeBytes.toNat ∧
      (∀ r ∈ requests, 0 < r.size.toNat ∧ r.addr.toNat % g.toNat + r.size.toNat ≤ g.toNat) ∧
      requests.flatMap AguRequest.bytes = ((List.range tm.getTileSizeBytes.toNat).map fun o =>
        (tm.byteAddress coords o, !tm.byteInside coords o)) ∧
      ((requests.filter fun r => !r.isFill).flatMap fun r => r.bytes.map Prod.fst).Perm
        ((generateTmaRequests tm coords).flatMap fun r => r.bytes.map RequestByte.address) := by
  have hpos : 0 < g.toNat := by
    rcases hg with rfl | rfl | rfl <;> decide
  obtain ⟨state, hinit, hat⟩ := TmaAguState.initTensor_at ht
  obtain ⟨requests, hrun, hbytes, hlines⟩ := hat.genRequests ht hpos ht.tileBytes_pos (Nat.lt_succ_self _)
  have hall : bytesFrom tm coords 0 = ((List.range (tm.tileBytes coords)).map fun o =>
      (tm.byteAddress coords o, !tm.byteInside coords o)) := by
    rw [List.range_eq_range']
    rfl
  rw [TensorMap.getTileSizeBytes_eq ht.valid ht.fits]
  refine ⟨state, requests, hinit, hrun, ?_, hlines, hbytes.trans hall, ?_⟩
  · have hlength := congrArg List.length (hbytes.trans hall)
    rw [List.length_flatMap, List.length_map, List.length_range] at hlength
    rw [← hlength]
    simp [AguRequest.bytes]
  · have hvalid : ((generateTmaRequests tm coords).flatMap fun r =>
        r.bytes.map RequestByte.address) =
          (validOffsets tm coords).map (tm.byteAddress coords) := by
      rw [← List.map_flatMap, (generateTmaRequests_spec ht.valid ht.fits).1, List.map_map]
      rfl
    rw [flatMap_not_fill, hbytes, hall, List.filter_map, List.map_map, hvalid]
    apply List.Perm.of_eq
    unfold validOffsets
    congr 1
    apply List.filter_congr
    intro o _
    exact Bool.not_not _

/-- A 4 by 5 tensor of words. -/
def cornerMap : TensorMap where
  globalAddress := 0x1000
  tensorRank := 1
  boxDim d := if d = 0 then 3 else 2
  globalDim d := if d = 0 then 4 else 5
  globalStrides _ := 16
  tensorDataType := tmaDtypeU32
  swizzle := 0
  oobFill := 0

/-- A box that begins before the rows of the tensor and ends after the last one. -/
def cornerCoords (d : Nat) : BitVec 32 := if d = 0 then -1 else 4

theorem cornerMap_isTile : cornerMap.IsTile cornerCoords :=
  ⟨by decide, by decide, by decide⟩

theorem agu_agrees_with_corner :
    ∃ state requests, TmaAguState.initTensor cornerMap cornerCoords = some state ∧
      genRequests 32 (cornerMap.getTileSizeBytes.toNat + 1) state = some requests ∧
      (requests.map fun r => r.size.toNat).sum = cornerMap.getTileSizeBytes.toNat ∧
      (∀ r ∈ requests, 0 < r.size.toNat ∧ r.addr.toNat % 32 + r.size.toNat ≤ 32) ∧
      requests.flatMap AguRequest.bytes =
        ((List.range cornerMap.getTileSizeBytes.toNat).map fun o =>
          (cornerMap.byteAddress cornerCoords o, !cornerMap.byteInside cornerCoords o)) ∧
      ((requests.filter fun r => !r.isFill).flatMap fun r => r.bytes.map Prod.fst).Perm
        ((generateTmaRequests cornerMap cornerCoords).flatMap
          fun r => r.bytes.map RequestByte.address) :=
  agu_agrees_with_tile cornerMap_isTile (.inl rfl)

/-- The first row has one element before the tensor, the second row is past its end. -/
example : (TmaAguState.initTensor cornerMap cornerCoords).bind
    (fun state => genRequests 32 25 state) =
      some [⟨0x103C, 4, true⟩, ⟨0x1040, 8, false⟩, ⟨0x104C, 12, true⟩] := by decide

end FlashGpuSim
