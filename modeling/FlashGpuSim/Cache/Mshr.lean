import FlashGpuSim.Cache.TagArray

/-!
The table of the misses under way, after `mshr-table.cc`. An entry keeps the requests
that wait for its block; once the data are here it is ready, and its requests leave one
by one.
-/

namespace FlashGpuSim

open Lib

structure MshrEntry where
  list : List MemFetch
  hasAtomic : Bool
  ready : Bool

/-- What happens to the requests of a block. -/
inductive MissEvent where
  | entered (a : NewAddrType) (mf : MemFetch)
  | filled (a : NewAddrType)
  | returned (a : NewAddrType) (mf : MemFetch)
  deriving DecidableEq, Repr

/-- `log` is the history of the table, which the code does not keep. -/
structure MshrTable where
  data : Table MshrEntry
  currentResponse : List NewAddrType
  log : List MissEvent

namespace MshrTable

variable (cfg : CacheConfig) (m : MshrTable)

/-- The entry `operator[]` makes of an absent one. -/
def entryAt (a : NewAddrType) : MshrEntry :=
  (m.data.lookup a.toNat).getD { list := [], hasAtomic := false, ready := false }

def probe (a : NewAddrType) : Bool := (m.data.lookup a.toNat).any (fun e => !e.ready)

def probeReady (a : NewAddrType) : Bool := (m.data.lookup a.toNat).any (fun e => e.ready)

def readyForForward (a : NewAddrType) : Bool :=
  (m.data.lookup a.toNat).any (fun e => e.ready && decide (e.list.length < cfg.mshrMaxMerge))

def full (a : NewAddrType) : Bool :=
  match m.data.lookup a.toNat with
  | some e => if e.ready then true else decide (cfg.mshrMaxMerge ≤ e.list.length)
  | none => decide (cfg.mshrEntries ≤ Table.size m.data)

def add (a : NewAddrType) (mf : MemFetch) (isAtomic : Bool) : Except CacheFailure MshrTable := do
  require (!m.probeReady a) .mshrReady
  let e := m.entryAt a
  let e := { e with list := e.list ++ [mf], hasAtomic := isAtomic || e.hasAtomic }
  let data := m.data.insert a.toNat e
  require (decide (Table.size data ≤ cfg.mshrEntries)) .mshrEntries
  require (decide (e.list.length ≤ cfg.mshrMaxMerge)) .mshrMaxMerged
  pure { m with data := data, log := m.log ++ [.entered a mf] }

def addReady (a : NewAddrType) (mf : MemFetch) : Except CacheFailure MshrTable := do
  require (m.readyForForward cfg a) .mshrNotForwardable
  let e := m.entryAt a
  pure
    { m with
      data := m.data.insert a.toNat { e with list := e.list ++ [mf] }
      log := m.log ++ [.entered a mf] }

/-- The response is here; the result tells whether an atomic waited for it. -/
def markReady (a : NewAddrType) : Except CacheFailure (MshrTable × Bool) :=
  match m.data.lookup a.toNat with
  | none => .error .mshrMissing
  | some e => do
    require (!e.ready) .mshrReady
    let m' : MshrTable :=
      { data := m.data.insert a.toNat { e with ready := true }
        currentResponse := m.currentResponse ++ [a]
        log := m.log ++ [.filled a] }
    pure (m', e.hasAtomic)

/-- The next request of the response being drained; its entry leaves with its last one. -/
def nextAccess : Except CacheFailure (MshrTable × MemFetch) :=
  match m.currentResponse with
  | [] => .error .noAccessReady
  | a :: rest =>
    match (m.entryAt a).list with
    | [] => .error .mshrEmpty
    | mf :: list =>
      let log := m.log ++ [.returned a mf]
      let m' : MshrTable :=
        if list.isEmpty then { data := m.data.erase a.toNat, currentResponse := rest, log := log }
        else
          { m with
            data := m.data.insert a.toNat { m.entryAt a with list := list }
            log := log }
      .ok (m', mf)

/-- A read behind a pending write. -/
def isReadAfterWritePending (a : NewAddrType) : Bool :=
  ((m.entryAt a).list.dropWhile (fun mf => !mf.isWrite)).any (fun mf => !mf.isWrite)

end MshrTable

end FlashGpuSim
