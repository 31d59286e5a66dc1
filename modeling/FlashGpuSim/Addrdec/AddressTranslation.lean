import FlashGpuSim.Lib.Outcome
import FlashGpuSim.Addrdec.Ipoly

/-!
`linear_to_raw_address_translation`: from a linear address to the coordinates of a DRAM
location. A mapping option says to which coordinate each address bit belongs; the bits of the
channel stand in it, or they are inserted at `dramid`. A shift that C++ leaves undefined is a
failure here.
-/

namespace FlashGpuSim

open Lib Gf2

inductive PartitionIndexFunction
  | consecutive
  | bitwisePermutation
  | ipoly
  | pae
  | random
  | custom
  deriving DecidableEq, Repr

inductive NonPower2L2SliceMapping
  | plain
  | stableRotation
  deriving DecidableEq, Repr

inductive AddrdecFailure
  | noChannel
  | channelIndexing
  | indexing
  | explicitBit
  | mappingLength
  | undefinedShift
  | bankCount
  | chipRange
  | gap
  deriving DecidableEq, Repr

structure AddrdecMasks where
  chip : Nat := 0
  bk : Nat := 0
  row : Nat := 0
  col : Nat := 0
  burst : Nat := 0
  deriving DecidableEq, Repr

structure AddrdecOptions where
  addrdecOption : Option (List Char)
  gpgpuMemAddressMask : Nat := 0
  memoryPartitionIndexing : PartitionIndexFunction
  ipolyNonPower2Balanced : Nat := 0
  ipolyChannelStableL2slice : Nat := 0
  nonPower2L2ChannelIndexing : Nat := 0
  nonPower2L2SliceMapping : NonPower2L2SliceMapping := .plain
  /-- What the table of random interleavings holds for an address. -/
  addressRandomInterleaving : Nat → Nat := fun _ => 0

/-- `addrdec_t` -/
structure Addrdec where
  chip : Nat
  bk : Nat
  row : Nat
  col : Nat
  burst : Nat
  subPartition : Nat
  deriving DecidableEq, Repr

/-- The location of an address in a burst. -/
def Addrdec.location (d : Addrdec) : Nat × Nat × Nat × Nat × Nat :=
  (d.chip, d.bk, d.row, d.col, d.subPartition)

structure AddressTranslation where
  options : AddrdecOptions
  /-- `ADDR_CHIP_S`, unless the bits of the channel are explicit. -/
  addrChipS : Option Nat
  mask : AddrdecMasks
  nChannel : Nat
  nSubPartitionInChannel : Nat
  log2channel : Nat
  log2subPartition : Nat
  gap : Nat
  nextPowerOf2NChannel : Nat

/-! ### Slices -/

/-- `stable_mix`, the finalizer of SplitMix64. -/
def stableMix (value : Nat) : Nat :=
  let value := value ^^^ value >>> 30
  let value := value * 0xbf58476d1ce4e5b9 % 2 ^ 64
  let value := value ^^^ value >>> 27
  let value := value * 0x94d049bb133111eb % 2 ^ 64
  value ^^^ value >>> 31

def maxMemoryAccessSize : Nat := 128

def sliceIndex (channelAddress sliceCount : Nat) (balanced : Bool) : Nat :=
  let line := channelAddress / maxMemoryAccessSize
  let remainder := line % sliceCount
  if !balanced || sliceCount == 1 then remainder
  else
    let rotation := stableMix (line / sliceCount) % sliceCount
    (remainder + rotation) % sliceCount

/-- `is_power_of_two` -/
def isPowerOfTwo (value : Nat) : Bool := value != 0 && value &&& (value - 1) == 0

/-! ### Masks -/

/-- The bits from `low` to below `high` that a mask covers. -/
def maskBits (mask high low : Nat) : List Nat :=
  (List.range' low (high - low)).filter fun i => mask.testBit i

/-- `addrdec_packbits`: the covered bits of `val`, next to each other. -/
def addrdecPackbits (mask val high low : Nat) : Nat :=
  toUlong ((maskBits mask high low).map fun i => val.testBit i)

/-- `addrdec_getmasklimit`: the highest bit of a mask, plus one, and its lowest one. -/
def addrdecGetmasklimit (mask : Nat) : Nat × Nat :=
  match (List.range 64).filter fun i => mask.testBit i with
  | [] => (64, 0)
  | low :: rest => ((rest.getLast?.getD low) + 1, low)

/-- A coordinate of 32 bits. -/
def decodeField (mask addr : Nat) : Nat :=
  let (high, low) := addrdecGetmasklimit mask
  addrdecPackbits mask addr high low % 2 ^ 32

/-- A bit of a mask that a coordinate of 32 bits still shows. -/
def shows (mask p : Nat) : Bool := ((maskBits mask 64 0).take 32).contains p

/-! ### The mapping option -/

inductive MappingBit
  | chip
  | bk
  | row
  | col
  | burst
  | ignored
  deriving DecidableEq, Repr

/-- The meaning of a character; others separate, or are reported and passed over. -/
def mappingBit : Char → Option MappingBit
  | 'D' | 'd' => some .chip
  | 'B' | 'b' => some .bk
  | 'R' | 'r' => some .row
  | 'C' | 'c' => some .col
  | 'S' | 's' => some .burst
  | '0' => some .ignored
  | _ => none

/-- A burst bit is a column bit as well. -/
def AddrdecMasks.set (m : AddrdecMasks) (ofs : Nat) : MappingBit → AddrdecMasks
  | .chip => { m with chip := m.chip ||| 1 <<< ofs }
  | .bk => { m with bk := m.bk ||| 1 <<< ofs }
  | .row => { m with row := m.row ||| 1 <<< ofs }
  | .col => { m with col := m.col ||| 1 <<< ofs }
  | .burst => { m with burst := m.burst ||| 1 <<< ofs, col := m.col ||| 1 <<< ofs }
  | .ignored => m

/-- The loop over the characters; `left` is `ofs + 1`. -/
def parseMapping (dramidParsed : Bool) :
    List Char → Nat → AddrdecMasks → Except AddrdecFailure AddrdecMasks
  | [], left, m => do
    require (left == 0) .mappingLength
    return m
  | c :: rest, left, m =>
    match mappingBit c, left with
    | none, left => parseMapping dramidParsed rest left m
    | some _, 0 => .error .mappingLength
    | some bit, ofs + 1 => do
      require (!(bit == .chip && dramidParsed)) .explicitBit
      parseMapping dramidParsed rest ofs (m.set ofs bit)

/-- The number at the start of a text, as `%d` reads it. -/
def scanNumber (text : List Char) : Option Int :=
  let digits (text : List Char) : Option Int :=
    match text.takeWhile Char.isDigit with
    | [] => none
    | ds => some (ds.foldl (fun n c => 10 * n + (c.toNat - '0'.toNat : Nat)) 0)
  match text.dropWhile Char.isWhitespace with
  | '-' :: rest => (digits rest).map fun n => -n
  | '+' :: rest => digits rest
  | rest => digits rest

/-- `sscanf` with `dramid@%d` -/
def scanDramid : List Char → Option Int
  | 'd' :: 'r' :: 'a' :: 'm' :: 'i' :: 'd' :: '@' :: rest => scanNumber rest
  | _ => none

/-- `ADDR_CHIP_S` and the masks of a mapping option. -/
def addrdecParseoption (option : List Char) : Except AddrdecFailure (Int × AddrdecMasks) := do
  let cmapping :=
    match option.dropWhile (fun c => c != ';') with
    | [] => option
    | _ :: rest => rest
  let masks ← parseMapping (scanDramid option).isSome cmapping 64 {}
  return ((scanDramid option).getD (-1), masks)

/-- The masks without a mapping option. -/
def addressMask : Nat → Int × AddrdecMasks
  | 0 => (10, ⟨0, 0x300, 0x7FFE000, 0x1CFF, 0xF⟩)
  | 1 => (13, ⟨0, 0x1800, 0x7FFE000, 0x7FF, 0xF⟩)
  | 2 => (11, ⟨0, 0x1800, 0x7FFE000, 0x7FF, 0xF⟩)
  | 3 => (11, ⟨0, 0x1800, 0xFFFE000, 0x7FF, 0xF⟩)
  | 14 => (14, ⟨0, 0x1800, 0x7FFE000, 0x7FF, 0xF⟩)
  | 15 => (15, ⟨0, 0x1800, 0x7FFE000, 0x7FF, 0xF⟩)
  | 16 => (16, ⟨0, 0x1800, 0x7FFE000, 0x7FF, 0xF⟩)
  | 6 | 106 => (6, ⟨0, 0x1800, 0x7FFE000, 0x7FF, 0xF⟩)
  | 5 => (5, ⟨0, 0x1800, 0x7FFE000, 0x7FF, 0xF⟩)
  | 100 => (1, ⟨0, 0x3, 0x7FFE000, 0x1FFC, 0xF⟩)
  | 103 => (3, ⟨0, 0x3, 0x7FFE000, 0x1FFC, 0xF⟩)
  | 160 => (6, ⟨0, 0x300, 0x7FFE000, 0x1CFF, 0xF⟩)
  | _ => (10, ⟨0x1C00, 0x300, 0xFFF0000, 0xE0FF, 0xF⟩)

def AddrdecOptions.mapping (o : AddrdecOptions) : Except AddrdecFailure (Int × AddrdecMasks) :=
  match o.addrdecOption with
  | none => .ok (addressMask o.gpgpuMemAddressMask)
  | some option => addrdecParseoption option

/-! ### Initialization -/

/-- The loop of `next_powerOf2`, which leaves the highest bit. -/
def unsetRightmost : Nat → Nat → Nat
  | 0, n => n
  | fuel + 1, n => if n &&& (n - 1) = 0 then n else unsetRightmost fuel (n &&& (n - 1))

/-- `next_powerOf2` of a positive number. -/
def nextPowerOf2 (n : Nat) : Nat := unsetRightmost 32 (n - 1) <<< 1

/-- A gap for the bits of the channel. -/
def insertGap (mask addrChipS nchipbits : Nat) : Nat :=
  ((mask >>> addrChipS) <<< addrChipS) <<< nchipbits % 2 ^ 64 ||| mask % 2 ^ addrChipS

def AddrdecMasks.insertChip (m : AddrdecMasks) (addrChipS nchipbits : Nat) : AddrdecMasks :=
  { m with
    chip := m.chip ||| (2 ^ nchipbits - 1) <<< addrChipS
    bk := insertGap m.bk addrChipS nchipbits
    row := insertGap m.row addrChipS nchipbits
    col := insertGap m.col addrChipS nchipbits }

namespace AddressTranslation

def init (o : AddrdecOptions) (nChannel nSubPartitionInChannel : Nat) :
    Except AddrdecFailure AddressTranslation := do
  require (decide (0 < nChannel) && decide (0 < nSubPartitionInChannel)) .noChannel
  require (o.nonPower2L2ChannelIndexing == 0 || o.nonPower2L2ChannelIndexing == 2)
    .channelIndexing
  require (o.nonPower2L2ChannelIndexing == 0 || isPowerOfTwo nChannel) .channelIndexing
  require (o.nonPower2L2ChannelIndexing != 2 || (decide (16 ≤ nChannel) && decide (nChannel ≤ 1024)))
    .channelIndexing
  require (isPowerOfTwo nSubPartitionInChannel || o.memoryPartitionIndexing == .consecutive)
    .indexing
  let nchipbits := nChannel.log2
  let gap := nChannel - 2 ^ nchipbits
  let (addrChipS, masks) ← o.mapping
  let t : AddressTranslation :=
    { options := o
      addrChipS := none
      mask := masks
      nChannel := nChannel
      nSubPartitionInChannel := nSubPartitionInChannel
      log2channel := nchipbits
      log2subPartition := nSubPartitionInChannel.log2 +
        if isPowerOfTwo nSubPartitionInChannel then 0 else 1
      gap := gap
      nextPowerOf2NChannel := nextPowerOf2 nChannel }
  if addrChipS = -1 then
    require (isPowerOfTwo nChannel) .gap
    return t
  else if gap = 0 then
    require (decide (0 ≤ addrChipS ∧ addrChipS + nchipbits ≤ 64 ∧ addrChipS < 64)) .undefinedShift
    return { t with
      addrChipS := some addrChipS.toNat
      mask := masks.insertChip addrChipS.toNat nchipbits }
  else
    -- The code shifts the `int` 1 by `ADDR_CHIP_S`.
    require (decide (0 ≤ addrChipS ∧ addrChipS < 31)) .undefinedShift
    return { t with addrChipS := some addrChipS.toNat }

variable (t : AddressTranslation)

/-- The quotient of the high part of an address by the number of channels, and the low part. -/
def channelQuotient (s addr : Nat) : Nat :=
  (addr >>> s / t.nChannel) <<< s % 2 ^ 64 ||| addr % 2 ^ s

def channelAddress (addr : Nat) : Nat :=
  match t.gap, t.addrChipS with
  | 0, _ | _, none => addrdecPackbits ((2 ^ 64 - 1) ^^^ t.mask.chip) addr 64 0
  | _, some s => t.channelQuotient s addr

/-- The fields that the masks give. -/
def rawFields (chip rest : Nat) : Addrdec where
  chip := chip
  bk := decodeField t.mask.bk rest
  row := decodeField t.mask.row rest
  col := decodeField t.mask.col rest
  burst := decodeField t.mask.burst rest
  subPartition := 0

/-- The fields before the sub partition is chosen, and the rest of the address. -/
def decodeMasks (addr : Nat) : Addrdec × Nat :=
  match t.gap, t.addrChipS with
  | 0, none => (t.rawFields (decodeField t.mask.chip addr) addr,
      addr >>> (t.log2channel + t.log2subPartition - 1))
  | 0, some s => (t.rawFields (decodeField t.mask.chip addr) addr,
      addr >>> (s + (t.log2channel + t.log2subPartition)))
  | _, none => (t.rawFields 0 addr, addr)
  | _, some s => (t.rawFields ((addr >>> s) % t.nChannel % 2 ^ 32) (t.channelQuotient s addr),
      addr >>> s / t.nChannel)

/-- The choice of a sub partition in a channel whose slices are no power of two. -/
def decodeSlice (addr : Nat) (d : Addrdec) : Except AddrdecFailure Addrdec := do
  require (t.options.memoryPartitionIndexing == .consecutive) .indexing
  let localAddress := t.channelAddress addr
  let chip ←
    if t.options.nonPower2L2ChannelIndexing = 2 then
      match t.addrChipS with
      | none => .error .undefinedShift
      | some s =>
        match ipolyHashFunction (localAddress >>> s) d.chip t.nChannel with
        | none => .error .bankCount
        | some chip => pure chip
    else pure d.chip
  require (decide (chip < t.nChannel)) .chipRange
  let subPartitionInChannel := sliceIndex localAddress t.nSubPartitionInChannel
    (t.options.nonPower2L2SliceMapping == .stableRotation)
  let subPartition := (chip * t.nSubPartitionInChannel + subPartitionInChannel) % 2 ^ 32
  require (decide (subPartition < t.nChannel * t.nSubPartitionInChannel % 2 ^ 32)) .chipRange
  return { d with chip := chip, subPartition := subPartition }

/-- The seed of the IPOLY hash: the decoded channel and the low bits of the bank. -/
def ipolySeed (d : Addrdec) : Nat :=
  (d.chip * t.nSubPartitionInChannel + (d.bk &&& (t.nSubPartitionInChannel - 1))) % 2 ^ 32

def ipolyHash (a index n : Nat) : Except AddrdecFailure Nat :=
  match ipolyHashFunction a index n with
  | none => .error .bankCount
  | some b => .ok b

/-- The sub partition that the IPOLY indexing chooses. -/
def ipolySubPartition (addr highBits : Nat) (d : Addrdec) : Except AddrdecFailure Nat :=
  let n := t.nChannel
  let m := t.nSubPartitionInChannel
  let total := n * m % 2 ^ 32
  if t.gap ≠ 0 ∧ t.options.ipolyChannelStableL2slice ≠ 0 then do
    let seed := (d.chip &&& 0xf) ^^^ (d.bk &&& (m - 1))
    let sliceHash ← ipolyHash (addr >>> 8) seed 16
    return (d.chip * m + sliceHash % m) % 2 ^ 32
  else if t.gap ≠ 0 ∧ t.options.ipolyNonPower2Balanced = 3 then do
    let offset ← ipolyHash highBits 0 1024
    return (t.ipolySeed d + offset) % 2 ^ 32 % total
  else do
    let virtual :=
      if t.gap ≠ 0 ∧ t.options.ipolyNonPower2Balanced = 2 then 1024
      else t.nextPowerOf2NChannel * m % 2 ^ 32
    let hashed ← ipolyHash highBits (t.ipolySeed d) virtual
    if t.gap = 0 then return hashed
    else if t.options.ipolyNonPower2Balanced = 1 then
      return (hashed % n * m + hashed / n % m) % 2 ^ 32
    else if t.options.ipolyNonPower2Balanced = 2 then
      return hashed * total / virtual
    else return hashed % total

/-- The asserted bounds of a chosen sub partition. -/
def chosen (d : Addrdec) (subPartition : Nat) : Except AddrdecFailure Addrdec := do
  require (decide (subPartition / t.nSubPartitionInChannel < t.nChannel)) .chipRange
  require (decide (subPartition < t.nChannel * t.nSubPartitionInChannel % 2 ^ 32)) .chipRange
  return { d with chip := subPartition / t.nSubPartitionInChannel, subPartition := subPartition }

/-- The channel, and below it the low bits of the bank. -/
def consecutive (d : Addrdec) : Addrdec :=
  { d with subPartition := t.ipolySeed d }

def addrdecTlx (addr : Nat) : Except AddrdecFailure Addrdec :=
  let (d, highBits) := t.decodeMasks addr
  if !isPowerOfTwo t.nSubPartitionInChannel then t.decodeSlice addr d
  else
    match t.options.memoryPartitionIndexing with
    | .consecutive | .custom => .ok (t.consecutive d)
    | .bitwisePermutation => do
      require (t.gap == 0) .gap
      let chip := d.chip ^^^ (highBits &&& (t.nChannel - 1))
      require (decide (chip < t.nChannel)) .chipRange
      return t.consecutive { d with chip := chip }
    | .ipoly => do
      let subPartition ←
        t.ipolySubPartition addr (if t.gap = 0 then addr >>> 8 else highBits) d
      t.chosen d subPartition
    | .random => t.chosen d
        (t.options.addressRandomInterleaving (addr >>> (t.addrChipS.getD 0 - t.log2subPartition)))
    | .pae => .error .indexing

/-! ### Aliases -/

/-- The address bits of the coordinates. -/
def covered : Nat := t.mask.chip ||| t.mask.bk ||| t.mask.row ||| t.mask.col

/-- Addresses that differ only in these bits have different locations. -/
def AliasFree : Prop :=
  ∀ a b, a < 2 ^ 64 → b < 2 ^ 64 →
    (∀ p, t.covered.testBit p = false → a.testBit p = b.testBit p) →
    ∀ d d', t.addrdecTlx a = .ok d → t.addrdecTlx b = .ok d' → d.location = d'.location → a = b

/-- The covered bits that neither the bank nor the row nor the column shows. -/
def hiddenBits : List Nat :=
  (List.range 64).filter fun p => t.covered.testBit p &&
    !(shows t.mask.bk p || shows t.mask.row p || shows t.mask.col p)

/-- What these bits contribute to the sub partition: a column of the hash, and the place of a
bit of the channel in the seed. -/
def partitionColumns (rows : List (List Nat)) : List Nat :=
  t.hiddenBits.map fun p => hashBits rows (2 ^ p >>> 8) ^^^
    decodeField t.mask.chip (2 ^ p) * t.nSubPartitionInChannel % 2 ^ rows.length

/-- The bits of the coordinates fit into them, and above `ADDR_CHIP_S` no bit between them is
ignored where the channel is a remainder. -/
structure Separable : Prop where
  shown : ∀ p < 64, t.covered.testBit p = true → shows t.mask.bk p = true ∨
    shows t.mask.row p = true ∨ shows t.mask.col p = true ∨
      (t.gap = 0 ∧ shows t.mask.chip p = true)
  contiguous : t.gap ≠ 0 → ∀ s, t.addrChipS = some s → ∀ p p', t.covered.testBit p' = true →
    s ≤ p → p < p' → t.covered.testBit p = true
  channels : t.options.nonPower2L2ChannelIndexing = 2 →
    (maskBits t.mask.chip 64 0).length ≤ t.nChannel.log2
  room : t.nChannel * t.nSubPartitionInChannel + 1024 ≤ 2 ^ 32

end AddressTranslation

end FlashGpuSim
