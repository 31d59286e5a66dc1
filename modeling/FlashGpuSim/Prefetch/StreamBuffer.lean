import Mathlib.Data.List.Sort
import FlashGpuSim.Lib.Outcome

/-!
The instruction stream buffer of `flash/instruction_cache/stream_buffer.cc`: per stream a
window of the lines after the last demand, each queued, in flight or ready. Addresses are
numbers below `2 ^ 64`; generations and the clock are counted without wrap. Statistics are
left out.
-/

namespace FlashGpuSim

open Lib

/-- `instruction_prefetch_state`. -/
inductive PrefetchState
  | queued
  | inflight
  | ready
  deriving DecidableEq, Repr

/-- `instruction_demand_state`. -/
inductive DemandState
  | untracked
  | queued
  | inflight
  | ready
  deriving DecidableEq, Repr

/-- `instruction_prefetch_request`. -/
structure PrefetchRequest where
  address : Nat
  context : Nat
  generation : Nat
  stream : Nat
  deriving DecidableEq, Repr

/-- `instruction_stream_buffer_config` with the assertions of the constructor. -/
structure StreamBufferConfig where
  lineSize : Nat
  streams : Nat
  depth : Nat
  issueWidth : Nat
  gccPreloadLines : Nat
  lineSize_ne : lineSize ≠ 0
  lineSize_pow : lineSize &&& (lineSize - 1) = 0
  streams_ne : streams ≠ 0
  depth_ne : depth ≠ 0
  issueWidth_ne : issueWidth ≠ 0

/-- `entry`. -/
structure StreamEntry where
  address : Nat
  state : PrefetchState
  deriving DecidableEq, Repr

/-- `stream_state`. -/
structure StreamState where
  valid : Bool
  context : Nat
  generation : Nat
  demandLine : Nat
  lastUse : Nat
  entries : List StreamEntry
  deriving DecidableEq, Repr

/-- A value-initialised `stream_state`. -/
def StreamState.empty : StreamState where
  valid := false
  context := 0
  generation := 0
  demandLine := 0
  lastUse := 0
  entries := []

structure InstructionStreamBuffer where
  streams : List StreamState
  issueCursor : Nat
  clock : Nat
  /-- `m_preload_base_lines`, one pair for each key. -/
  preloadBaseLines : List (Nat × Nat)
  deriving DecidableEq, Repr

inductive StreamFault
  /-- The 32-bit `distance` wraps before it passes `depth`. -/
  | endlessRefill
  /-- `assert(stream.entries.size() <= m_config.depth)`. -/
  | windowTooLong
  /-- `min_element` of no stream. -/
  | noStream
  deriving DecidableEq, Repr

/-- `line_address`. -/
def StreamBufferConfig.lineAddress (c : StreamBufferConfig) (address : Nat) : Nat :=
  address &&& (2 ^ 64 - 1 - (c.lineSize - 1))

namespace StreamState

/-- `find_entry`: the first entry of the address. -/
def findEntry (s : StreamState) (address : Nat) : Option StreamEntry :=
  s.entries.find? (·.address = address)

/-- `invalidate`. -/
def invalidate (s : StreamState) : StreamState :=
  { valid := false, context := 0, generation := s.generation + 1, demandLine := 0, lastUse := 0,
    entries := [] }

/-- The loop of `refill_window` over the distances, and whether it was left by its `break`. -/
def addDistances (lineSize demandLine : Nat) :
    List Nat → List StreamEntry → List StreamEntry × Bool
  | [], entries => (entries, false)
  | distance :: rest, entries =>
    if distance > (2 ^ 64 - 1 - demandLine) / lineSize then (entries, true)
    else
      let address := demandLine + distance * lineSize
      if (entries.find? (·.address = address)).isNone then
        addDistances lineSize demandLine rest (entries ++ [⟨address, .queued⟩])
      else addDistances lineSize demandLine rest entries

/-- `refill_window`. -/
def refillWindow (c : StreamBufferConfig) (s : StreamState) :
    Except StreamFault StreamState := do
  let kept := s.entries.filter (fun candidate => !decide (candidate.address ≤ s.demandLine))
  let (entries, broke) :=
    addDistances c.lineSize s.demandLine ((List.range c.depth).map (· + 1)) kept
  -- no 32-bit distance is above the largest depth
  require (broke || decide (c.depth < 2 ^ 32 - 1)) .endlessRefill
  let entries := entries.insertionSort (fun left right => left.address ≤ right.address)
  require (decide (entries.length ≤ c.depth)) .windowTooLong
  return { s with entries }

/-- The fields `start_stream` sets before it fills the window. -/
def restart (s : StreamState) (context demandLine lastUse : Nat) : StreamState :=
  { s with valid := true, context, demandLine, lastUse, generation := s.generation + 1 }

/-- Writes the state of the first entry that satisfies `p`. -/
def setFirst (p : StreamEntry → Bool) (state : PrefetchState) :
    List StreamEntry → List StreamEntry
  | [] => []
  | e :: rest => if p e then { e with state } :: rest else e :: setFirst p state rest

end StreamState

namespace InstructionStreamBuffer

variable (c : StreamBufferConfig)

/-- The constructor. -/
def init : InstructionStreamBuffer where
  streams := List.replicate c.streams .empty
  issueCursor := 0
  clock := 0
  preloadBaseLines := []

/-- `std::min_element` over `last_use`: the first stream that was used longest ago. -/
def leastRecentlyUsed (u : InstructionStreamBuffer) : Nat :=
  u.streams.findIdx (fun s => u.streams.all (fun t => decide (s.lastUse ≤ t.lastUse)))

/-- `start_stream`. -/
def startStream (u : InstructionStreamBuffer) (context demandLine : Nat) :
    Except StreamFault InstructionStreamBuffer := do
  let target := u.streams.findIdx? (fun s => !s.valid)
  let index := target.getD u.leastRecentlyUsed
  match u.streams[index]? with
  | none => throw .noStream
  | some s =>
    let s := if target.isSome then s else s.invalidate
    let s ← (s.restart context demandLine (u.clock + 1)).refillWindow c
    return { u with streams := u.streams.set index s, clock := u.clock + 1 }

/-- The state of a demanded entry as `observe_demand` returns it. -/
def demandState : PrefetchState → DemandState
  | .queued => .queued
  | .inflight => .inflight
  | .ready => .ready

/-- `m_preload_base_lines.emplace`: a present key keeps its value. -/
def emplaceBaseLine (u : InstructionStreamBuffer) (context line : Nat) :
    InstructionStreamBuffer :=
  if u.preloadBaseLines.any (·.1 = context) then u
  else { u with preloadBaseLines := u.preloadBaseLines ++ [(context, line)] }

/-- The stream of the context whose window has the line, as the loop of `observe_demand` finds
it. -/
def tracking (u : InstructionStreamBuffer) (context line : Nat) :
    Option (Nat × StreamState × StreamEntry) :=
  u.streams.zipIdx.findSome? fun (s, index) =>
    if s.valid && decide (s.context = context) then
      (s.findEntry line).map fun candidate => (index, s, candidate)
    else none

/-- `observe_demand`. -/
def observeDemand (u : InstructionStreamBuffer) (context address : Nat) (demandMiss : Bool) :
    Except StreamFault (InstructionStreamBuffer × DemandState) := do
  let line := c.lineAddress address
  let u := u.emplaceBaseLine context line
  match u.tracking context line with
  | some (index, s, candidate) =>
    let s ← { s with demandLine := line, lastUse := u.clock + 1 }.refillWindow c
    return ({ u with streams := u.streams.set index s, clock := u.clock + 1 },
      demandState candidate.state)
  | none =>
    let u ← if demandMiss then u.startStream c context line else pure u
    return (u, .untracked)

/-- One turn of the loop of `issue` at a stream: its first queued entry is sent. -/
def launch (u : InstructionStreamBuffer) (index : Nat) :
    Option (InstructionStreamBuffer × PrefetchRequest) :=
  match u.streams[index]? with
  | none => none
  | some s =>
    if s.valid then
      match s.entries.find? (·.state = .queued) with
      | none => none
      | some candidate =>
        some ({ u with
            streams := u.streams.set index
              { s with entries := StreamState.setFirst (·.state = .queued) .inflight s.entries } },
          ⟨candidate.address, s.context, s.generation, index⟩)
    else none

/-- The turns of the loop of `issue` up to the next request, with `next` after it. -/
def issueScan (next : InstructionStreamBuffer → InstructionStreamBuffer × List PrefetchRequest) :
    Nat → InstructionStreamBuffer → InstructionStreamBuffer × List PrefetchRequest
  | 0, u => (u, [])
  | unvisited + 1, u =>
    let index := u.issueCursor
    let u := { u with issueCursor := (u.issueCursor + 1) % u.streams.length }
    match u.launch index with
    | none => issueScan next unvisited u
    | some (u, request) =>
      let (u, requests) := next u
      (u, request :: requests)

/-- The loop of `issue`: each request makes `visited_without_issue` zero again. -/
def issueLoop : Nat → InstructionStreamBuffer → InstructionStreamBuffer × List PrefetchRequest
  | 0, u => (u, [])
  | wanted + 1, u => issueScan (issueLoop wanted) u.streams.length u

/-- `issue`. -/
def issue (u : InstructionStreamBuffer) : InstructionStreamBuffer × List PrefetchRequest :=
  issueLoop c.issueWidth u

/-- `request_stream`. -/
def requestStream (u : InstructionStreamBuffer) (request : PrefetchRequest) :
    Option StreamState :=
  match u.streams[request.stream]? with
  | none => none
  | some s =>
    if !s.valid || s.context != request.context || s.generation != request.generation then none
    else some s

/-- `current`. -/
def current (u : InstructionStreamBuffer) (request : PrefetchRequest) : Bool :=
  match u.requestStream request with
  | none => false
  | some s => (s.findEntry request.address).isSome

/-- `gcc_preload_contains`. -/
def gccPreloadContains (u : InstructionStreamBuffer) (request : PrefetchRequest) : Bool :=
  if c.gccPreloadLines = 0 then false
  else
    match u.preloadBaseLines.find? (·.1 = request.context) with
    | none => false
    | some base =>
      if request.address < base.2 then false
      else decide ((request.address - base.2) / c.lineSize < c.gccPreloadLines)

/-- The common body of `retry`, `mark_resident` and `fill`: the entry of an answered request
takes its new state. -/
def respond (u : InstructionStreamBuffer) (request : PrefetchRequest) (state : PrefetchState) :
    InstructionStreamBuffer :=
  match u.requestStream request with
  | none => u
  | some s =>
    match s.findEntry request.address with
    | none => u
    | some candidate =>
      if candidate.state ≠ .inflight then u
      else
        { u with
          streams := u.streams.set request.stream
            { s with
              entries := StreamState.setFirst (·.address = request.address) state s.entries } }

/-- `retry`. -/
def retry (u : InstructionStreamBuffer) (request : PrefetchRequest) : InstructionStreamBuffer :=
  u.respond request .queued

/-- `mark_resident`. -/
def markResident (u : InstructionStreamBuffer) (request : PrefetchRequest) :
    InstructionStreamBuffer :=
  u.respond request .ready

/-- `fill`. -/
def fill (u : InstructionStreamBuffer) (request : PrefetchRequest) : InstructionStreamBuffer :=
  u.respond request .ready

/-- `cancel_context`. -/
def cancelContext (u : InstructionStreamBuffer) (context : Nat) : InstructionStreamBuffer :=
  { u with
    streams := u.streams.map fun s =>
      if s.valid && decide (s.context = context) then s.invalidate else s
    preloadBaseLines := u.preloadBaseLines.filter (·.1 ≠ context) }

/-- `reset`. -/
def reset (u : InstructionStreamBuffer) : InstructionStreamBuffer :=
  { u with streams := u.streams.map StreamState.invalidate, issueCursor := 0,
           preloadBaseLines := [] }

end InstructionStreamBuffer

end FlashGpuSim
