import FlashGpuSim.Lib.Tables
import FlashGpuSim.SmemService
import FlashGpuSim.Dsm.Fabric

/-!
`dsm_endpoint_protocol_t`: the requests an SM issues, their service at the target SM
and the responses. The hooks of the surrounding cluster are a `DsmHost` over a state
of their own; the SRAM flow hooks, when they are set, are the shared-memory services
of the SMs. Statistics are left out. A history records what happened, for the proofs
only.
-/

namespace FlashGpuSim

open Lib

structure DsmEndpointConfig where
  maxOutstandingPerSm : Nat := 16
  ackCoalesceThreshold : Nat := 4
  ackTimeoutCycles : Nat := 64

/-- `dsm_tx_t` -/
structure DsmTx where
  id : Nat
  requester : Nat
  target : Nat
  cls : DsmPacketClass
  remainingResponses : Nat := 1
  payloadBytes : Nat
  addr : Nat
  createdCycle : Nat
  ctaSlot : Nat
  ctaGen : Nat
  applied : Bool := false
  deriving DecidableEq, Repr

/-- `extra_t` -/
structure Extra where
  mbarAddr : Nat := 0
  mbarBytes : Nat := 0
  mbarOp : Nat := 0
  reqCta : Nat := 0
  reqWarp : Nat := 0
  parity : Int := 0
  deriving DecidableEq, Repr

/-- `pending_t`, which has a copy of each field of `extra_t`. -/
structure Pending extends Extra where
  cls : DsmPacketClass
  src : Nat
  dst : Nat
  txid : Nat
  bytes : Nat
  count : Nat
  addr : Nat := 0
  ctaSlot : Nat
  ctaGen : Nat
  arriveCycle : Nat := 0
  injectAfter : Nat := 0
  sramGot : Nat := 0
  sramDone : Bool := false
  payload : List UInt8 := []
  deriving DecidableEq, Repr

/-- An entry of `m_ingress` once it has been served. -/
def Pending.served (p : Pending) (now : Nat) : Pending :=
  { p with sramDone := true, injectAfter := now }

/-- The arguments of `issue_req`. The data is what the pointer points to. -/
structure IssueReq where
  cls : DsmPacketClass
  src : Nat
  dst : Nat
  bytes : Nat
  addr : Nat
  ctaSlot : Nat
  ctaGen : Nat
  data : Option (Nat → UInt8) := none
  multicastGroup : Nat := 0

/-- The arguments of `issue_mbar`. -/
structure IssueMbar where
  src : Nat
  dst : Nat
  ctaSlot : Nat
  ctaGen : Nat
  mbarAddr : Nat
  op : Nat
  count : Nat
  reqCta : Nat
  reqWarp : Nat
  parity : Int

/-- The arguments of the hook for mbarrier requests. -/
structure MbarHookArgs where
  localSm : Nat
  cta : Nat
  src : Nat
  mbarAddr : Nat
  op : Nat
  count : Nat
  reqCta : Nat
  reqWarp : Nat
  parity : Int

def Pending.hookArgs (p : Pending) : MbarHookArgs :=
  { localSm := p.src
    cta := p.ctaSlot
    src := p.dst
    mbarAddr := p.mbarAddr
    op := p.mbarOp
    count := p.mbarBytes
    reqCta := p.reqCta
    reqWarp := p.reqWarp
    parity := p.parity }

/-- `cluster_mbar_op::WAIT_REG` -/
def kWaitReg : Nat := 4

/-- `cluster_mbar_op::WAIT_DONE` -/
def kWaitDone : Nat := 5

/-- The classes whose packets are acknowledged and not answered. -/
def DsmPacketClass.isStore : DsmPacketClass → Bool
  | .writeData | .tmaData => true
  | _ => false

/-- The hooks the cluster sets, over its own state. A read hook fills a buffer of `n`
bytes, and the request hook of the barriers may call `issue_mbar` itself. -/
structure DsmHost (σ : Type) where
  sramWrite : Option (σ → Nat → Nat → Nat → List UInt8 → σ) := none
  sramRead : Option (σ → Nat → Nat → Nat → (n : Nat) → Fin n → UInt8) := none
  onTxDone : Option (σ → Nat → σ) := none
  onLoadData : Option (σ → Nat → List UInt8 → σ) := none
  onTmaMbar : Option (σ → Nat → Nat → Nat → Nat → σ) := none
  onMbarReq : Option (σ → MbarHookArgs → Bool × List IssueMbar × σ) := none
  onMbarDone : Option (σ → Nat → Nat → σ) := none

/-- What the history records. An access to a CTA comes with the request and with the
generation its slot had at that moment. -/
inductive DsmEvent
  | accepted (tx : DsmTx)
  | applied (txid : Nat)
  | sramWrite (req : Pending) (current : Option Nat) (bytes : List UInt8)
  | sramRead (req : Pending) (current : Option Nat) (bytes : List UInt8)
  | tmaMbar (req : Pending) (current : Option Nat)
  | mbarReq (req : Pending) (current : Option Nat)
  | response (txid : Nat) (bytes : List UInt8)
  | txDone (txid : Nat)
  | mbarDone (sm warp : Nat)
  deriving DecidableEq, Repr

/-- `dsm_endpoint_protocol_t` -/
structure DsmEndpoint (σ : Type) where
  fab : DsmFabric
  cfg : DsmEndpointConfig
  now : Nat
  nextTx : Nat
  lastTxid : Nat
  tx : Nat → Table DsmTx
  storeQ : Nat → Nat → List Nat
  acksOwed : Nat → Nat → Nat
  oldestAck : Nat → Nat → Nat
  lastWrite : Nat → Nat → Nat
  ctaGens : Nat → Nat → Nat
  ingress : List Pending
  pending : List Pending
  data : Table (List UInt8)
  extra : Table Extra
  /-- `m_sram_expose` and `m_sram_take` -/
  smem : Option (Nat → SharedMemoryService)
  hostState : σ
  history : List DsmEvent

/-- `m_table[i][j] = x` -/
def update₂ {α : Type} (table : Nat → Nat → α) (i j : Nat) (x : α) : Nat → Nat → α :=
  Function.update table i (Function.update (table i) j x)

@[simp] theorem update₂_apply {α : Type} (table : Nat → Nat → α) (i j : Nat) (x : α)
    (i' j' : Nat) :
    update₂ table i j x i' j' = if i' = i ∧ j' = j then x else table i' j' := by
  by_cases hi : i' = i
  · subst hi
    by_cases hj : j' = j
    · subst hj
      simp [update₂]
    · simp [update₂, hj]
  · simp [update₂, hi]

theorem update₂_self {α : Type} (table : Nat → Nat → α) (i j : Nat) (x : α) :
    update₂ table i j x i j = x := by
  rw [update₂_apply, if_pos ⟨rfl, rfl⟩]

theorem update₂_other {α : Type} {i j i' j' : Nat} (table : Nat → Nat → α) (x : α)
    (h : ¬ (i' = i ∧ j' = j)) : update₂ table i j x i' j' = table i' j' := by
  rw [update₂_apply, if_neg h]

namespace DsmEndpoint

variable {σ : Type}

/-- The constructor, with the hooks already set. -/
def construct (fab : DsmFabric) (cfg : DsmEndpointConfig)
    (smem : Option (Nat → SharedMemoryService)) (hostState : σ) : DsmEndpoint σ where
  fab := fab
  cfg :=
    { maxOutstandingPerSm := orDefault cfg.maxOutstandingPerSm 16
      ackCoalesceThreshold := orDefault cfg.ackCoalesceThreshold 4
      ackTimeoutCycles := orDefault cfg.ackTimeoutCycles 64 }
  now := 0
  nextTx := 0
  lastTxid := 0
  tx _ := ∅
  storeQ _ _ := []
  acksOwed _ _ := 0
  oldestAck _ _ := 0
  lastWrite _ _ := 0
  ctaGens _ _ := 0
  ingress := []
  pending := []
  data := ∅
  extra := ∅
  smem := smem
  hostState := hostState
  history := []

variable (host : DsmHost σ) (e : DsmEndpoint σ)

/-- `m_n` -/
def n : Nat := e.fab.n

/-! ### Queries -/

def outstanding (sm : Nat) : Nat := if sm < e.n then (e.tx sm).size else 0

def windowOpen (sm : Nat) : Bool :=
  decide (sm < e.n) && decide (e.outstanding sm < e.cfg.maxOutstandingPerSm)

def flitsOf (cls : DsmPacketClass) (bytes : Nat) : Nat :=
  dsmPayloadFlits cls bytes e.fab.cfg.flitPayloadBytes

/-- `ack_debt(sm)` -/
def ackDebt (sm : Nat) : Nat :=
  if sm < e.n then ((List.range e.n).map (e.acksOwed sm)).sum else 0

/-- `ack_debt(sm, requester)` -/
def ackDebtTo (sm requester : Nat) : Nat :=
  if sm < e.n ∧ requester < e.n then e.acksOwed sm requester else 0

def bumpCtaGen (localSm cta : Nat) : DsmEndpoint σ :=
  if localSm < e.n ∧ cta < 32 then
    { e with ctaGens := update₂ e.ctaGens localSm cta ((e.ctaGens localSm cta + 1) % 2 ^ 32) }
  else e

def ctaGen (localSm cta : Nat) : Nat :=
  if localSm < e.n ∧ cta < 32 then e.ctaGens localSm cta else 0

def inFlightWrites (src dst : Nat) : Nat := e.fab.occupancyFlits src .request dst

def responseOcc (sm : Nat) : Nat :=
  ((List.range e.n).map (fun d => e.fab.occupancyFlits sm .response d)).sum

def writeUnapplied (src dst : Nat) : Bool :=
  if src < e.n ∧ dst < e.n then
    (e.tx src).entries.any (fun kv =>
      kv.2.target == dst && kv.2.cls.isStore && !kv.2.applied) ||
    decide (0 < e.inFlightWrites src dst)
  else false

/-- What `can_store` and its siblings share. -/
def canSend (cls : DsmPacketClass) (src dst bytes : Nat) : Bool :=
  e.windowOpen src && src != dst && e.fab.canInject src .request dst (e.flitsOf cls bytes)

def canStore (src dst bytes : Nat) : Bool := e.canSend .writeData src dst bytes

def canLoad (src dst bytes : Nat) : Bool := e.canSend .readCommand src dst bytes

def canAtom (src dst bytes : Nat) : Bool := e.canSend .atomicRequest src dst bytes

def canTma (src dst bytes : Nat) : Bool := e.canSend .tmaData src dst bytes

def canMbar (src dst : Nat) : Bool := e.canSend .mbarrierRequest src dst 0

def busy : Bool :=
  e.fab.busy || !e.pending.isEmpty || !e.ingress.isEmpty ||
    (List.range e.n).any (fun sm => (e.tx sm).size != 0 || e.ackDebt sm != 0)

/-- The generation of a CTA slot, when there is such a slot. -/
def generation (sm ctaSlot : Nat) : Option Nat :=
  if ctaSlot < 32 then some (e.ctaGens sm ctaSlot) else none

/-- `gen_ok` -/
def genOk (p : Pending) : Bool := e.generation p.src p.ctaSlot == some p.ctaGen

/-- A difference of two `unsigned long long` times. -/
def age (t : Nat) : Nat := (e.now + 2 ^ 64 - t) % 2 ^ 64

/-! ### Issue -/

/-- The packet `issue_req` builds. -/
def requestPacket (r : IssueReq) : DsmPacket :=
  { transactionId := e.nextTx + 1
    networkSrcSmId := r.src
    networkDstSmId := r.dst
    transactionRequesterSmId := r.src
    transactionTargetSmId := r.dst
    packetClass := r.cls
    vc := dsmVcOf r.cls
    payloadBytes := r.bytes
    payloadAddress := r.addr
    createdCycle := e.now
    ctaSlot := r.ctaSlot
    ctaGen := r.ctaGen
    multicastGroup := r.multicastGroup }

/-- The transaction `issue_req` enters into `m_tx`. -/
def transaction (r : IssueReq) : DsmTx :=
  { id := e.nextTx + 1
    requester := r.src
    target := r.dst
    cls := r.cls
    payloadBytes := r.bytes
    addr := r.addr
    createdCycle := e.now
    ctaSlot := r.ctaSlot
    ctaGen := r.ctaGen }

/-- The bytes that `issue_req` copies. -/
def IssueReq.copied (r : IssueReq) : List UInt8 :=
  match r.data with
  | some data => (List.range r.bytes).map data
  | none => []

/-- The endpoint after `issue_req` has injected its packet. -/
def accept (r : IssueReq) (fab : DsmFabric) : DsmEndpoint σ :=
  { e with
    fab := fab
    nextTx := e.nextTx + 1
    lastTxid := e.nextTx + 1
    data :=
      if (IssueReq.copied r).isEmpty then e.data
      else e.data.insert (e.nextTx + 1) (IssueReq.copied r)
    tx := Function.update e.tx r.src ((e.tx r.src).insert (e.nextTx + 1) (e.transaction r))
    storeQ :=
      if r.cls.isStore then
        update₂ e.storeQ r.src r.dst (e.storeQ r.src r.dst ++ [e.nextTx + 1])
      else e.storeQ
    history := e.history ++ [.accepted (e.transaction r)] }

/-- The test each class of request has to pass. -/
def canIssue (r : IssueReq) : Bool :=
  match r.cls with
  | .writeData => e.canStore r.src r.dst r.bytes
  | .readCommand => e.canLoad r.src r.dst r.bytes
  | .atomicRequest => e.canAtom r.src r.dst r.bytes
  | .tmaData => e.canTma r.src r.dst r.bytes
  | .mbarrierRequest => e.canMbar r.src r.dst
  | _ => true

def issueReq (r : IssueReq) : Checked (Bool × DsmEndpoint σ) :=
  if e.canIssue r then do
    let fab ← e.fab.inject (e.requestPacket r)
    return (true, e.accept r fab)
  else return (false, e)

def issueStore (src dst bytes addr ctaSlot ctaGen : Nat) (data : Option (Nat → UInt8)) :
    Checked (Bool × DsmEndpoint σ) :=
  e.issueReq
    { cls := .writeData, src := src, dst := dst, bytes := bytes, addr := addr,
      ctaSlot := ctaSlot, ctaGen := ctaGen, data := data }

def issueLoad (src dst bytes addr ctaSlot ctaGen : Nat) : Checked (Bool × DsmEndpoint σ) :=
  e.issueReq
    { cls := .readCommand, src := src, dst := dst, bytes := bytes, addr := addr,
      ctaSlot := ctaSlot, ctaGen := ctaGen }

def issueAtom (src dst bytes addr ctaSlot ctaGen : Nat) (addend : Option (Nat → UInt8)) :
    Checked (Bool × DsmEndpoint σ) :=
  e.issueReq
    { cls := .atomicRequest, src := src, dst := dst, bytes := bytes, addr := addr,
      ctaSlot := ctaSlot, ctaGen := ctaGen, data := addend }

/-- `m_extra[m_last_txid] = e` -/
def setExtra (extra : Extra) : DsmEndpoint σ :=
  { e with extra := e.extra.insert e.lastTxid extra }

def issueTma (src dst bytes addr ctaSlot ctaGen : Nat) (data : Option (Nat → UInt8))
    (mbarAddr mbarBytes multicastGroup : Nat) : Checked (Bool × DsmEndpoint σ) := do
  let (ok, e) ← e.issueReq
    { cls := .tmaData, src := src, dst := dst, bytes := bytes, addr := addr,
      ctaSlot := ctaSlot, ctaGen := ctaGen, data := data, multicastGroup := multicastGroup }
  if ok then return (true, e.setExtra { mbarAddr := mbarAddr, mbarBytes := mbarBytes })
  else return (false, e)

/-- The packet `inject_response` builds. -/
def responsePacket (p : Pending) : DsmPacket :=
  { transactionId := p.txid
    networkSrcSmId := p.src
    networkDstSmId := p.dst
    transactionRequesterSmId := p.dst
    transactionTargetSmId := p.src
    packetClass := p.cls
    vc := dsmVcOf p.cls
    payloadBytes := p.bytes
    payloadAddress := p.addr
    completionCount := if p.count = 0 then 1 else p.count
    createdCycle := e.now
    ctaSlot := p.ctaSlot
    ctaGen := p.ctaGen }

/-- The endpoint after `inject_response` has injected its packet. -/
def respond (p : Pending) (fab : DsmFabric) : DsmEndpoint σ :=
  { e with
    fab := fab
    data := if p.payload.isEmpty then e.data else e.data.insert p.txid p.payload }

def injectResponse (p : Pending) : Checked (Bool × DsmEndpoint σ) :=
  if e.fab.canInject p.src (dsmVcOf p.cls) p.dst (e.flitsOf p.cls p.bytes) then do
    let fab ← e.fab.inject (e.responsePacket p)
    return (true, e.respond p fab)
  else return (false, e)

def IssueMbar.extra (m : IssueMbar) : Extra :=
  { mbarAddr := m.mbarAddr
    mbarBytes := m.count
    mbarOp := m.op
    reqCta := m.reqCta
    reqWarp := m.reqWarp
    parity := m.parity }

/-- The completion message that `issue_mbar` sends for `WAIT_DONE`. -/
def waitDone (m : IssueMbar) : Pending :=
  { IssueMbar.extra m with
    cls := .mbarrierCompletion
    src := m.src
    dst := m.dst
    txid := e.nextTx + 1
    bytes := 0
    count := 1
    ctaSlot := m.ctaSlot
    ctaGen := m.ctaGen }

/-- `m_extra[id] = e` for the new id of a `WAIT_DONE` message. -/
def noticed (m : IssueMbar) : DsmEndpoint σ :=
  { e with
    nextTx := e.nextTx + 1
    extra := e.extra.insert (e.nextTx + 1) (IssueMbar.extra m) }

def issueMbar (m : IssueMbar) : Checked (Bool × DsmEndpoint σ) :=
  if m.op = kWaitDone then do
    let p := e.waitDone m
    let (sent, e) ← (e.noticed m).injectResponse p
    return (true, if sent then e else { e with pending := e.pending ++ [p] })
  else do
    let (ok, e) ← e.issueReq
      { cls := .mbarrierRequest, src := m.src, dst := m.dst, bytes := 0, addr := m.mbarAddr,
        ctaSlot := m.ctaSlot, ctaGen := m.ctaGen }
    if ok then return (true, e.setExtra (IssueMbar.extra m)) else return (false, e)

/-- The `issue_mbar` calls of a hook. -/
def issueMbars (calls : List IssueMbar) : Checked (DsmEndpoint σ) :=
  calls.foldlM (fun e m => do
    let (_, e) ← e.issueMbar m
    return e) e

/-! ### Completion -/

def accrueAck (target requester : Nat) : DsmEndpoint σ :=
  if target < e.n ∧ requester < e.n then
    { e with
      oldestAck :=
        if e.acksOwed target requester = 0 then update₂ e.oldestAck target requester e.now
        else e.oldestAck
      acksOwed := update₂ e.acksOwed target requester (e.acksOwed target requester + 1)
      lastWrite := update₂ e.lastWrite target requester e.now }
  else e

/-- The hook call `m_on_tx_done(id)`. -/
def txDone (id : Nat) : DsmEndpoint σ :=
  { e with
    hostState :=
      match host.onTxDone with
      | some fn => fn e.hostState id
      | none => e.hostState
    history := e.history ++ [.txDone id] }

/-- One turn of the loop in `complete_stores`. -/
def completeStore (requester target id : Nat) (rest : List Nat) : DsmEndpoint σ :=
  txDone host { e with
    storeQ := update₂ e.storeQ requester target rest
    tx := Function.update e.tx requester ((e.tx requester).erase id)
    extra := e.extra.erase id
    data := e.data.erase id } id

def completeStores (requester target : Nat) : Nat → DsmEndpoint σ → DsmEndpoint σ
  | 0, e => e
  | count + 1, e =>
    if requester < e.n ∧ target < e.n then
      match e.storeQ requester target with
      | [] => e
      | id :: rest =>
        completeStores requester target count (completeStore host e requester target id rest)
    else e

def completeLoad (requester txid : Nat) : DsmEndpoint σ :=
  txDone host { e with
    tx :=
      if requester < e.n then Function.update e.tx requester ((e.tx requester).erase txid)
      else e.tx
    extra := e.extra.erase txid } txid

/-! ### Arrivals -/

def exposeSram (sm bytes : Nat) : DsmEndpoint σ :=
  { e with
    smem := e.smem.map (fun service => Function.update service sm
      ((service sm).expose kSmemDsm bytes)) }

/-- The entry `harvest` builds for a request. -/
def ingressEntry (sm : Nat) (p : DsmPacket) : Pending :=
  { (e.extra.lookup p.transactionId).getD {} with
    cls := p.packetClass
    src := sm
    dst := p.transactionRequesterSmId
    txid := p.transactionId
    bytes := p.payloadBytes
    count := 1
    addr := p.payloadAddress
    ctaSlot := p.ctaSlot
    ctaGen := p.ctaGen
    arriveCycle := e.now }

/-- `harvest`: a request that was popped at `sm`. -/
def arriveRequest (sm : Nat) (p : DsmPacket) : DsmEndpoint σ :=
  let entry := e.ingressEntry sm p
  let e := if entry.bytes = 0 then e else e.exposeSram sm entry.bytes
  { e with ingress := e.ingress ++ [entry] }

/-- The data of a load or an atomic reaches its requester. -/
def loadData (txid : Nat) : DsmEndpoint σ :=
  let bytes := (e.data.lookup txid).getD []
  { e with
    hostState :=
      match host.onLoadData with
      | some fn => if bytes.isEmpty then e.hostState else fn e.hostState txid bytes
      | none => e.hostState
    data := e.data.erase txid
    history := e.history ++ [.response txid bytes] }

/-- `harvest`: an `mbarrier_completion` that was popped at `sm`. -/
def arriveMbarCompletion (sm txid : Nat) : DsmEndpoint σ :=
  let extra := (e.extra.lookup txid).getD {}
  let inTx := decide (sm < e.n) && ((e.tx sm).lookup txid).isSome
  let e := if inTx then completeLoad host e sm txid else { e with extra := e.extra.erase txid }
  if extra.mbarOp = kWaitDone then
    { e with
      hostState :=
        match host.onMbarDone with
        | some fn => fn e.hostState sm extra.reqWarp
        | none => e.hostState
      history := e.history ++ [.mbarDone sm extra.reqWarp] }
  else e

/-- `harvest`: a response that was popped at `sm`. -/
def arriveResponse (sm : Nat) (p : DsmPacket) : DsmEndpoint σ :=
  match p.packetClass with
  | .writeAck =>
    completeStores host sm p.transactionTargetSmId
      (if p.completionCount = 0 then 1 else p.completionCount) e
  | .readData | .atomicResponse =>
    completeLoad host (loadData host e p.transactionId) sm p.transactionId
  | .mbarrierCompletion => arriveMbarCompletion host e sm p.transactionId
  | _ => e

/-- A `while (m_fab->top(sm, vc))` loop, with the packets left in the queue. -/
def drain (vc : DsmVc) (sm : Nat) (arrive : DsmEndpoint σ → DsmPacket → DsmEndpoint σ) :
    Nat → DsmEndpoint σ → Checked (DsmEndpoint σ)
  | 0, e => return e
  | left + 1, e =>
    match e.fab.top sm vc with
    | none => return e
    | some _ => do
      let (popped, fab) ← e.fab.pop sm vc
      match popped with
      | none => return { e with fab := fab }
      | some p => drain vc sm arrive left (arrive { e with fab := fab } p)

def harvestSm (sm : Nat) : Checked (DsmEndpoint σ) := do
  let e ← drain .request sm (fun e p => e.arriveRequest sm p) (e.fab.ej .request sm).length e
  drain .response sm (fun e p => arriveResponse host e sm p) (e.fab.ej .response sm).length e

def harvest : Checked (DsmEndpoint σ) :=
  (List.range e.n).foldlM (fun e sm => harvestSm host e sm) e

/-! ### Service at the target -/

/-- `m_sram_take`, when there is something to take and a hook to take it from. -/
def takeSram (sm need : Nat) : Nat × DsmEndpoint σ :=
  match e.smem with
  | some service =>
    if need = 0 then (0, e)
    else
      let (got, taken) := (service sm).take kSmemDsm need
      (got, { e with smem := some (Function.update service sm taken) })
  | none => (need, e)

/-- `m_sram_write(p.src, p.cta_slot, p.addr, bytes)` -/
def sramWrite (p : Pending) (bytes : List UInt8) : DsmEndpoint σ :=
  match host.sramWrite with
  | some fn =>
    { e with
      hostState := fn e.hostState p.src p.ctaSlot p.addr bytes
      history := e.history ++ [.sramWrite p (e.generation p.src p.ctaSlot) bytes] }
  | none => e

/-- `it->second.applied = true` -/
def markApplied (requester txid : Nat) : DsmEndpoint σ :=
  match (e.tx requester).lookup txid with
  | some t =>
    if requester < e.n then
      { e with
        tx := Function.update e.tx requester
          ((e.tx requester).insert txid { t with applied := true })
        history := e.history ++ [.applied txid] }
    else e
  | none => e

/-- `apply_sram` for `write_data` and `tma_data`. -/
def applyStore (p : Pending) : DsmEndpoint σ :=
  let bytes := (e.data.lookup p.txid).getD []
  let e := if e.genOk p && !bytes.isEmpty then sramWrite host e p bytes else e
  (e.accrueAck p.src p.dst).markApplied p.dst p.txid

/-- The bytes `m_sram_read` leaves in a buffer of zeros, and the access. -/
def sramRead (p : Pending) : List UInt8 × DsmEndpoint σ :=
  match host.sramRead with
  | some fn =>
    if e.genOk p && p.bytes != 0 then
      let bytes := List.ofFn (fn e.hostState p.src p.ctaSlot p.addr p.bytes)
      (bytes, { e with
        history := e.history ++ [.sramRead p (e.generation p.src p.ctaSlot) bytes] })
    else (List.replicate p.bytes 0, e)
  | none => (List.replicate p.bytes 0, e)

/-- The number stored in bytes, least significant first. -/
def ofBytes : List UInt8 → Nat
  | [] => 0
  | byte :: rest => byte.toNat + 256 * ofBytes rest

/-- The first `width` bytes of a number. -/
def toBytes : Nat → Nat → List UInt8
  | 0, _ => []
  | width + 1, value => UInt8.ofNat value :: toBytes width (value / 256)

/-- The sum of a word in memory and an addend, of 4 or of 8 bytes. -/
def atomicSum (width : Nat) (old addend : List UInt8) : List UInt8 :=
  toBytes width ((ofBytes (old.take width) + ofBytes (addend.take width)) % 2 ^ (8 * width))

/-- `apply_sram` for `atomic_request`, given the addend. -/
def applyAtomic (p : Pending) : DsmEndpoint σ × Pending :=
  let addend := (e.data.lookup p.txid).getD []
  let (old, e') := sramRead host e p
  let e' :=
    if e.genOk p && host.sramRead.isSome && (p.bytes == 4 || p.bytes == 8) &&
        decide (p.bytes ≤ addend.length) then
      sramWrite host e' p (atomicSum p.bytes old addend)
    else e'
  (e', { p with payload := old, cls := .atomicResponse })

/-- `apply_sram` -/
def applySram (p : Pending) : DsmEndpoint σ × Pending :=
  match p.cls with
  | .writeData | .tmaData => (applyStore host e p, p)
  | .readCommand =>
    let (bytes, e) := sramRead host e p
    (e, { p with payload := bytes, cls := .readData })
  | .atomicRequest => applyAtomic host e p
  | _ => (e, p)

/-- The hook call for a TMA packet that completes bytes of an mbarrier. -/
def notifyTmaMbar (p : Pending) : DsmEndpoint σ :=
  match host.onTmaMbar with
  | some fn =>
    if p.cls = .tmaData ∧ (p.mbarAddr ≠ 0 ∨ p.mbarBytes ≠ 0) ∧ e.genOk p then
      { e with
        hostState := fn e.hostState p.src p.ctaSlot p.mbarAddr p.mbarBytes
        history := e.history ++ [.tmaMbar p (e.generation p.src p.ctaSlot)] }
    else e
  | none => e

/-- The hook call for an mbarrier request, with the `issue_mbar` calls it makes. -/
def deliverMbar (p : Pending) : Checked (Bool × DsmEndpoint σ) :=
  match host.onMbarReq with
  | some fn => do
    let (sat, calls, hostState) := fn e.hostState p.hookArgs
    let e : DsmEndpoint σ := { e with
      hostState := hostState
      history := e.history ++ [.mbarReq p (e.generation p.src p.ctaSlot)] }
    let e ← e.issueMbars calls
    return (sat, e)
  | none => return (false, e)

/-- A registered wait that is already satisfied is answered by a `WAIT_DONE`. -/
def satisfyWait (p : Pending) : DsmEndpoint σ × Pending :=
  if p.mbarOp = kWaitReg then
    ({ e with
        extra :=
          match e.extra.lookup p.txid with
          | some x => e.extra.insert p.txid { x with mbarOp := kWaitDone }
          | none => e.extra },
      { p with mbarOp := kWaitDone })
  else (e, p)

/-- The end of the loop body of `process_ingress`. -/
def retain (keep : List Pending) (p : Pending) : DsmEndpoint σ × List Pending :=
  if e.now ≤ p.injectAfter then (e, keep ++ [p])
  else ({ e with pending := e.pending ++ [p] }, keep)

/-- The completion that follows the hook call for an mbarrier request. -/
def answerMbar (keep : List Pending) (p : Pending) (sat : Bool) : DsmEndpoint σ × List Pending :=
  if p.mbarOp = kWaitReg ∧ sat = false then (completeLoad host e p.dst p.txid, keep)
  else
    let (e, p) := e.satisfyWait p
    e.retain keep { p with cls := .mbarrierCompletion }

/-- An entry of `m_ingress` that has all its SRAM bytes. -/
def serveEntry (keep : List Pending) (p : Pending) :
    Checked (DsmEndpoint σ × List Pending) := do
  let (e, p) := applySram host e p
  let e := notifyTmaMbar host e p
  let p := p.served e.now
  if p.cls.isStore then return (e, keep)
  else if p.cls = .mbarrierRequest then
    let (sat, e) ← deliverMbar host e p
    return answerMbar host e keep p sat
  else return e.retain keep p

/-- The body of the loop in `process_ingress`. -/
def processEntry (keep : List Pending) (p : Pending) :
    Checked (DsmEndpoint σ × List Pending) :=
  if e.now ≤ p.arriveCycle then return (e, keep ++ [p])
  else if p.sramDone then return e.retain keep p
  else
    let (got, e) := e.takeSram p.src (p.bytes - p.sramGot)
    let p := { p with sramGot := p.sramGot + got }
    if p.sramGot < p.bytes then return (e.exposeSram p.src (p.bytes - p.sramGot), keep ++ [p])
    else serveEntry host e keep p

def processIngress : Checked (DsmEndpoint σ) := do
  let (e, keep) ← e.ingress.foldlM
    (fun (state : DsmEndpoint σ × List Pending) p => processEntry host state.1 state.2 p)
    ({ e with ingress := [] }, [])
  return { e with ingress := keep }

/-- The body of the loop in `try_send_pending`. -/
def sendEntry (keep : List Pending) (p : Pending) : Checked (DsmEndpoint σ × List Pending) := do
  let (sent, e) ← e.injectResponse p
  return (e, if sent then keep else keep ++ [p])

def trySendPending : Checked (DsmEndpoint σ) := do
  let (e, keep) ← e.pending.foldlM
    (fun (state : DsmEndpoint σ × List Pending) p => state.1.sendEntry state.2 p)
    ({ e with pending := [] }, [])
  return { e with pending := keep }

/-! ### Acknowledgements -/

/-- The three triggers that send the acknowledgements `sm` owes to `req`. -/
def flushDue (sm req : Nat) : Bool :=
  let debt := e.acksOwed sm req
  let thresh := decide (e.cfg.ackCoalesceThreshold ≤ debt)
  let timed := decide (e.cfg.ackTimeoutCycles ≤ e.age (e.oldestAck sm req))
  let ingressStore := e.ingress.any (fun p => p.src == sm && p.dst == req && p.cls.isStore)
  let idle := e.inFlightWrites req sm == 0 && e.responseOcc sm == 0 && !ingressStore &&
    decide (3 ≤ e.age (e.lastWrite sm req))
  debt != 0 && (thresh || timed || idle)

/-- The acknowledgement for all that `sm` owes to `req`. -/
def ackEntry (sm req : Nat) : Pending :=
  { cls := .writeAck
    src := sm
    dst := req
    txid := 0
    bytes := 0
    count := e.acksOwed sm req
    ctaSlot := 0
    ctaGen := 0 }

def flushAck (sm req : Nat) : Checked (DsmEndpoint σ) :=
  if e.flushDue sm req then do
    let (sent, e') ← e.injectResponse (e.ackEntry sm req)
    if sent then
      return { e' with
        acksOwed := update₂ e'.acksOwed sm req 0
        oldestAck := update₂ e'.oldestAck sm req 0 }
    else return e'
  else return e

def tryFlushAcks : Checked (DsmEndpoint σ) :=
  (List.range e.n).foldlM (fun e sm =>
    (List.range e.n).foldlM (fun e req => e.flushAck sm req) e) e

def cycle (now : Nat) : Checked (DsmEndpoint σ) := do
  let fab ← e.fab.cycle now
  let e ← harvest host { e with now := now, fab := fab }
  let e ← processIngress host e
  let e ← e.trySendPending
  e.tryFlushAcks

end DsmEndpoint

end FlashGpuSim
