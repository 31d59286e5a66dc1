import FlashGpuSim.GpuTopology
import FlashGpuSim.Dsm.Packet

/-!
`dsm_fabric_t`: injection into per-destination queues, the shaper, the two
arbitration levels, the ejection credits and the delivery to the endpoint.
Statistics are left out, as nothing reads them. Next to the queues stand three
history variables (the packets accepted so far, the flits granted so far and
the packets popped so far) that only the proofs read.
-/

namespace FlashGpuSim

open Lib

structure DsmFabricConfig where
  cpcs : Nat := 0
  lanesPerCpc : Nat := 4
  gxPlanes : Nat := 2
  flitPayloadBytes : Nat := 32
  shaperPeriod : Nat := 3
  requestVcFlits : Nat := 64
  responseVcFlits : Nat := 64
  ejectionVcFlits : Nat := 64
  routeSeed : Nat := 0
  responsePriorityBound : Nat := 4
  baseLatencyCycles : Nat := 0
  storeVisibilityLatencyCycles : Nat := 0
  shaper : Option String := some "skip_mod"
  shaperIndex : Option String := some "sm_id"
  vcArbiter : Option String := some "bounded_response_priority"

inductive Shaper
  | skipMod
  | fixedTdm
  | hardRateCap
  deriving DecidableEq, Repr

/-- The queues and credits of the fabric, with its history. -/
structure FabricBuffers where
  /-- `m_in` -/
  voq : DsmVc → Nat → BoundedVoq DsmPacket
  /-- `m_ej` -/
  ej : DsmVc → Nat → List DsmPacket
  /-- `m_credit` -/
  credit : DsmVc → FlitCreditCounters
  /-- history: the accepted packets, as they were queued -/
  accepted : List DsmPacket
  /-- history: the serial number of the packet of each granted flit -/
  granted : List Nat
  /-- history: the popped packets, with the port they were popped at -/
  popped : List (DsmVc × Nat × DsmPacket)

/-- `dsm_fabric_t` -/
structure DsmFabric extends FabricBuffers where
  cfg : DsmFabricConfig
  n : Nat
  shaper : Shaper
  indexIsSlot : Bool
  rspPriority : Bool
  now : Nat
  nextPktId : Nat
  cpc : Nat → Nat
  slot : Nat → Nat
  hrcAcc : Nat → Nat
  consecRsp : Nat → Nat
  dstNext : DsmVc → Nat → Nat
  lastEligible : Nat → Bool
  routeRr : Nat → RoundRobinArbiter
  cpcRr : Nat → RoundRobinArbiter

/-- `if (!x) x = d` -/
def orDefault (x d : Nat) : Nat := if x = 0 then d else x

def streq (a : Option String) (b : String) : Bool := a == some b

namespace DsmFabricConfig

/-- The defaults the constructor fills in. -/
def resolve (cfg : DsmFabricConfig) (topo : GpuTopology) : DsmFabricConfig :=
  { cfg with
    cpcs := orDefault cfg.cpcs topo.cpcsPerGpc
    lanesPerCpc := orDefault cfg.lanesPerCpc 4
    gxPlanes := orDefault cfg.gxPlanes 2
    flitPayloadBytes := orDefault cfg.flitPayloadBytes 32
    shaperPeriod := orDefault cfg.shaperPeriod 3
    requestVcFlits := orDefault cfg.requestVcFlits 64
    responseVcFlits := orDefault cfg.responseVcFlits 64
    ejectionVcFlits := orDefault cfg.ejectionVcFlits 64
    responsePriorityBound := orDefault cfg.responsePriorityBound 4 }

def vcFlits (cfg : DsmFabricConfig) : DsmVc → Nat
  | .request => cfg.requestVcFlits
  | .response => cfg.responseVcFlits

/-- `num_routes()`, a product of two `unsigned`. -/
def numRoutes (cfg : DsmFabricConfig) : Nat :=
  cfg.gxPlanes * cfg.lanesPerCpc % 2 ^ 32

end DsmFabricConfig

namespace FabricBuffers

def init (n : Nat) (cfg : DsmFabricConfig) : FabricBuffers where
  voq vc _ := BoundedVoq.init n (cfg.vcFlits vc)
  ej _ _ := []
  credit _ := FlitCreditCounters.init cfg.ejectionVcFlits
  accepted := []
  granted := []
  popped := []

def setVoq (b : FabricBuffers) (vc : DsmVc) (sm : Nat)
    (voq : BoundedVoq DsmPacket) : FabricBuffers :=
  { b with voq := Function.update b.voq vc (Function.update (b.voq vc) sm voq) }

def setEj (b : FabricBuffers) (vc : DsmVc) (dst : Nat)
    (queue : List DsmPacket) : FabricBuffers :=
  { b with ej := Function.update b.ej vc (Function.update (b.ej vc) dst queue) }

def setCredit (b : FabricBuffers) (vc : DsmVc)
    (credit : FlitCreditCounters) : FabricBuffers :=
  { b with credit := Function.update b.credit vc credit }

end FabricBuffers

namespace DsmFabric

/-- The constructor `dsm_fabric_t(topo, gpc, cfg)`. -/
def construct (topo : GpuTopology) (gpc : Nat) (cfg : DsmFabricConfig) :
    Checked DsmFabric := do
  let cfg := cfg.resolve topo
  let n := topo.numSmsInGpc gpc
  require (0 < n) .smCount
  require (n ≤ 64) .smCount
  let location := fun localSm => topo.locateSm (topo.smIdAt gpc localSm)
  require (0 < cfg.numRoutes) .routeCount
  require (cfg.numRoutes ≤ 64) .routeCount
  return {
    toFabricBuffers := FabricBuffers.init n cfg
    cfg := cfg
    n := n
    shaper :=
      if streq cfg.shaper "fixed_tdm" then .fixedTdm
      else if streq cfg.shaper "hard_rate_cap" then .hardRateCap
      else .skipMod
    indexIsSlot := streq cfg.shaperIndex "cpc_slot"
    rspPriority :=
      cfg.vcArbiter.isNone || streq cfg.vcArbiter "bounded_response_priority"
    now := 0
    nextPktId := 0
    cpc := fun localSm => ((location localSm).map SmLocation.cpcId).getD 0
    slot := fun localSm => ((location localSm).map SmLocation.cpcSlot).getD 0
    hrcAcc := fun _ => 0
    consecRsp := fun _ => 0
    dstNext := fun _ _ => 0
    lastEligible := fun _ => false
    routeRr := fun _ => RoundRobinArbiter.init n
    cpcRr := fun _ => RoundRobinArbiter.init cfg.numRoutes }

def canInject (f : DsmFabric) (src : Nat) (vc : DsmVc) (dest flits : Nat) : Bool :=
  decide (src < f.n) && decide (dest < f.n) && (f.voq vc src).canPush dest flits

/-- The overload of `can_inject` without a destination. -/
def canInjectAny (f : DsmFabric) (src : Nat) (vc : DsmVc) (flits : Nat) : Bool :=
  decide (src < f.n) && (List.range f.n).any (fun d => f.canInject src vc d flits)

/-- `hash_route`, already combined into `gx_plane * lanes_per_cpc + lane`. -/
def hashRoute (f : DsmFabric) (addr src dst uid : Nat) : Nat :=
  let idx := (addr / f.cfg.flitPayloadBytes + src * 2 + dst * 3 + uid / 16 +
    f.cfg.routeSeed) % 2 ^ 64
  idx % f.cfg.numRoutes

/-- The flit counts `inject` gives a packet that comes without them. -/
def withFlits (f : DsmFabric) (pkt : DsmPacket) : DsmPacket :=
  let pkt :=
    if pkt.totalFlits = 0 then
      let flits := dsmPayloadFlits pkt.packetClass pkt.payloadBytes f.cfg.flitPayloadBytes
      { pkt with totalFlits := flits, remainingFlits := flits }
    else pkt
  if pkt.remainingFlits = 0 then { pkt with remainingFlits := pkt.totalFlits } else pkt

/-- The packet id, the time stamps and the route `inject` writes before it queues
the packet. -/
def stamped (f : DsmFabric) (pkt : DsmPacket) : DsmPacket :=
  let packetId := if pkt.packetId = 0 then (f.nextPktId + 1) % 2 ^ 32 else pkt.packetId
  let route := f.hashRoute pkt.payloadAddress pkt.networkSrcSmId pkt.networkDstSmId packetId
  { pkt with
    packetId := packetId
    createdCycle := if pkt.createdCycle = 0 then f.now else pkt.createdCycle
    injectedCycle := f.now
    gxPlane := route / f.cfg.lanesPerCpc
    routeLane := route % f.cfg.lanesPerCpc
    serial := f.accepted.length }

def inject (f : DsmFabric) (packet : DsmPacket) : Checked DsmFabric := do
  let pkt := f.withFlits packet
  let src := pkt.networkSrcSmId
  let dst := pkt.networkDstSmId
  if f.canInject src pkt.vc dst pkt.remainingFlits then
    let nextPktId := if pkt.packetId = 0 then (f.nextPktId + 1) % 2 ^ 32 else f.nextPktId
    let pkt := f.stamped pkt
    let dataQueued := (f.voq pkt.vc src).contains dst
      (fun queued => queued.packetClass != .readCommand)
    let (pushed, voq) ←
      if pkt.packetClass == .readCommand && dataQueued then
        (f.voq pkt.vc src).pushFront dst pkt
      else (f.voq pkt.vc src).push dst pkt
    require pushed .packetPushed
    return { f with
      toFabricBuffers :=
        { f.toFabricBuffers.setVoq pkt.vc src voq with accepted := f.accepted ++ [pkt] }
      nextPktId := nextPktId }
  else return f

def ejectionVisible (f : DsmFabric) (p : DsmPacket) : Bool :=
  let floor :=
    if p.packetClass == .writeData && f.cfg.storeVisibilityLatencyCycles != 0 then
      f.cfg.storeVisibilityLatencyCycles
    else f.cfg.baseLatencyCycles
  let vis :=
    if floor = 0 then p.tailArrivalCycle
    else max p.tailArrivalCycle ((p.injectedCycle + floor) % 2 ^ 64)
  vis ≤ f.now

def top (f : DsmFabric) (dst : Nat) (vc : DsmVc) : Option DsmPacket :=
  if dst < f.n then
    match f.ej vc dst with
    | [] => none
    | p :: _ => if f.ejectionVisible p then some p else none
  else none

def pop (f : DsmFabric) (dst : Nat) (vc : DsmVc) :
    Checked (Option DsmPacket × DsmFabric) :=
  match f.top dst vc with
  | none => return (none, f)
  | some pkt => do
    let credit ← (f.credit vc).give dst pkt.ejectionReservedFlits
    return (some pkt, { f with
      toFabricBuffers :=
        { (f.toFabricBuffers.setEj vc dst (f.ej vc dst).tail).setCredit vc credit with
          popped := f.popped ++ [(vc, dst, pkt)] } })

def busy (f : DsmFabric) : Bool :=
  [DsmVc.request, DsmVc.response].any fun vc =>
    (List.range f.n).any fun s =>
      (f.voq vc s).occupancyFlits != 0 || !(f.ej vc s).isEmpty

def occupancyFlits (f : DsmFabric) (src : Nat) (vc : DsmVc) (dst : Nat) : Nat :=
  if src < f.n ∧ dst < f.n then (f.voq vc src).occ dst else 0

def creditRemaining (f : DsmFabric) (dst : Nat) (vc : DsmVc) : Nat :=
  if dst < f.n then (f.credit vc).free dst else 0

/-- The phases of the fixed TDM shaper, as sets of CPC slots. -/
def tdmPhase (phase slot : Nat) : Bool :=
  match phase with
  | 0 => slot == 0 || slot == 1 || slot == 2 || slot == 3
  | 1 => slot == 2 || slot == 3 || slot == 4 || slot == 5
  | _ => slot == 0 || slot == 1 || slot == 4 || slot == 5

def shaperAllows (f : DsmFabric) (sm cycle : Nat) : Bool :=
  let period := orDefault f.cfg.shaperPeriod 3
  let idx := if f.indexIsSlot then f.slot sm else sm
  match f.shaper with
  | .skipMod => cycle % period != idx % period
  | .fixedTdm => tdmPhase (cycle % 3) (f.slot sm)
  | .hardRateCap => false

/-- The eligibility of one SM in the cycle about to run. -/
def eligible (f : DsmFabric) (cycle sm : Nat) : Bool :=
  match f.shaper with
  | .hardRateCap => kSmSlotsPerCpc ≤ f.hrcAcc sm + f.cfg.lanesPerCpc
  | _ => f.shaperAllows sm cycle

/-- `sm_eligible`, the query of the endpoint and the tests. -/
def smEligible (f : DsmFabric) (sm cycle : Nat) : Bool :=
  if sm < f.n then
    if f.shaper == .hardRateCap && cycle == f.now then f.lastEligible sm
    else f.shaperAllows sm cycle
  else false

/-- The first loop of `cycle`: the time, the rate accumulators and the
eligibility of every SM. -/
def shape (f : DsmFabric) (cycle : Nat) : DsmFabric :=
  { f with
    now := cycle
    hrcAcc := fun sm =>
      if f.shaper = .hardRateCap ∧ sm < f.n then
        let acc := f.hrcAcc sm + f.cfg.lanesPerCpc
        if kSmSlotsPerCpc ≤ acc then acc - kSmSlotsPerCpc else acc
      else f.hrcAcc sm
    lastEligible := fun sm =>
      if sm < f.n then f.eligible cycle sm else f.lastEligible sm }

def peekDst (f : DsmFabric) (sm : Nat) (vc : DsmVc) : Option Nat :=
  ((List.range f.n).map (fun k => (f.dstNext vc sm + k) % f.n)).find?
    (fun d => !(f.voq vc sm).empty d)

def pickHead (f : DsmFabric) (sm : Nat) : Option (DsmVc × Nat) :=
  match f.peekDst sm .request, f.peekDst sm .response with
  | none, none => none
  | some req, none => some (.request, req)
  | none, some rsp => some (.response, rsp)
  | some req, some rsp =>
    if f.rspPriority && decide (f.consecRsp sm < f.cfg.responsePriorityBound) then
      some (.response, rsp)
    else some (.request, req)

/-- `req_t`, the head packet an SM offers in this cycle. -/
structure Request where
  sm : Nat
  vc : DsmVc
  dst : Nat
  cpc : Nat
  route : Nat
  deriving DecidableEq, Repr

def headRequest (f : DsmFabric) (sm : Nat) : Option Request := do
  let (vc, dst) ← f.pickHead sm
  let p ← (f.voq vc sm).front dst
  let grantedFlits := p.totalFlits - p.remainingFlits
  let flitAddr := (p.payloadAddress + grantedFlits * f.cfg.flitPayloadBytes) % 2 ^ 64
  return {
    sm := sm
    vc := vc
    dst := dst
    cpc := f.cpc sm
    route := f.hashRoute flitAddr sm dst p.packetId }

/-- `reqs`: one request of every eligible SM with a queued packet. -/
def collectRequests (f : DsmFabric) : List Request :=
  (List.range f.n).filterMap fun sm =>
    if f.lastEligible sm then f.headRequest sm else none

/-- The first arbitration level of a CPC: each route picks one requesting SM. -/
def arbitrateRoutes (f : DsmFabric) (reqs : List Request) (cpc : Nat) :
    Checked (DsmFabric × (Nat → Option Nat)) :=
  (List.range f.cfg.numRoutes).foldlM (fun (state : DsmFabric × (Nat → Option Nat)) route => do
    let (f, winner) := state
    let ready := fun sm => reqs.any (fun r => r.cpc == cpc && r.route == route && r.sm == sm)
    if reqs.any (fun r => r.cpc == cpc && r.route == route) then
      let slot := cpc * f.cfg.numRoutes + route
      let (win, rr) ← (f.routeRr slot).grant ready f.n
      return ({ f with routeRr := Function.update f.routeRr slot rr },
        Function.update winner route win)
    else return (f, winner)) (f, fun _ => none)

end DsmFabric

namespace FabricBuffers

def reserveLimit (b : FabricBuffers) (vc : DsmVc) (p : DsmPacket) : Nat :=
  min p.totalFlits (b.credit vc).depth

/-- The destinations one grant serves: the requested one, and with a multicast
group every other queue of the SM whose head belongs to that group. -/
def multicastDsts (b : FabricBuffers) (n : Nat) (r : DsmFabric.Request)
    (selected : DsmPacket) : List Nat :=
  r.dst ::
    if selected.multicastGroup = 0 then []
    else (List.range n).filter fun dst =>
      dst != r.dst &&
        ((b.voq r.vc r.sm).front dst).any
          (fun candidate => candidate.multicastGroup == selected.multicastGroup)

/-- The ejection-credit test of one head: its reservation is complete, or its
destination has a free credit. -/
def creditTest (b : FabricBuffers) (vc : DsmVc) (dst : Nat) (head : DsmPacket) : Bool :=
  !(decide (head.ejectionReservedFlits < b.reserveLimit vc head) &&
    !(b.credit vc).has dst 1)

def hasEjectionSpace (b : FabricBuffers) (vc : DsmVc) (sm : Nat) (dsts : List Nat) :
    Bool :=
  dsts.all fun dst => ((b.voq vc sm).front dst).all (b.creditTest vc dst)

/-- `take` of one credit, its assertion, and the count on the packet. -/
def reserveFlit (b : FabricBuffers) (vc : DsmVc) (sm dst : Nat) :
    Checked FabricBuffers := do
  let (reserved, credit) := (b.credit vc).take dst 1
  require reserved .creditReserved
  return (b.setCredit vc credit).setVoq vc sm
    ((b.voq vc sm).modifyFront dst
      (fun head => { head with ejectionReservedFlits := head.ejectionReservedFlits + 1 }))

/-- Reserve one more credit for the head of `dst` unless it holds all it needs. -/
def reserveHead (b : FabricBuffers) (vc : DsmVc) (sm dst : Nat) :
    Checked FabricBuffers :=
  match (b.voq vc sm).front dst with
  | none => throw .nullHead
  | some head =>
    if head.ejectionReservedFlits < b.reserveLimit vc head then b.reserveFlit vc sm dst
    else return b

/-- One branch of the grant loop: a flit of the head of `dst`, and the delivery
of the packet when it was the last. -/
def grantBranch (b : FabricBuffers) (now : Nat) (vc : DsmVc) (sm dst : Nat) :
    Checked (FabricBuffers × Bool) :=
  match (b.voq vc sm).front dst with
  | none => return (b, false)
  | some head => do
    let (done, voq) ← (b.voq vc sm).grantFlit dst
    let b := { b.setVoq vc sm voq with granted := b.granted ++ [head.serial] }
    match done with
    | none => return (b, false)
    | some p =>
      return (b.setEj vc dst (b.ej vc dst ++ [{ p with tailArrivalCycle := now }]), true)

def grantBranches (b : FabricBuffers) (now : Nat) (vc : DsmVc) (sm : Nat)
    (dsts : List Nat) : Checked (FabricBuffers × Bool) :=
  dsts.foldlM (fun (state : FabricBuffers × Bool) dst => do
    let (b, anyTail) := state
    let (b, tail) ← b.grantBranch now vc sm dst
    return (b, anyTail || tail)) (b, false)

/-- The condition under which the next packet of the queue rides in the same
grant: a complete packet of the same shape. -/
def coalesces (selected next : DsmPacket) : Bool :=
  next.packetClass == selected.packetClass &&
    next.payloadBytes == selected.payloadBytes && next.totalFlits == 1

/-- The `while (packets < packet_cap)` loop, with the iterations left. -/
def grantLoop (now : Nat) (vc : DsmVc) (sm dst : Nat) (dsts : List Nat)
    (selected : DsmPacket) : Nat → FabricBuffers → Checked FabricBuffers
  | 0, b => return b
  | left + 1, b => do
    let (b, anyTail) ← b.grantBranches now vc sm dsts
    if !anyTail || left == 0 then return b
    else
      match (b.voq vc sm).front dst with
      | none => return b
      | some next =>
        if coalesces selected next then
          if next.ejectionReservedFlits < b.reserveLimit vc next then
            if (b.credit vc).has dst 1 then
              let b ← b.reserveFlit vc sm dst
              grantLoop now vc sm dst dsts selected left b
            else return b
          else grantLoop now vc sm dst dsts selected left b
        else return b

/-- `packet_cap`: how many small packets one grant may finish. -/
def packetCap (flitPayloadBytes nDsts : Nat) (selected : DsmPacket) : Nat :=
  if nDsts = 1 ∧ selected.totalFlits = 1 ∧ 0 < selected.payloadBytes then
    if selected.packetClass = .readCommand then max 1 (128 / selected.payloadBytes)
    else if !dsmPacketIsControl selected.packetClass &&
        decide (selected.payloadBytes < flitPayloadBytes) then
      flitPayloadBytes / selected.payloadBytes
    else 1
  else 1

end FabricBuffers

namespace DsmFabric

/-- The body of the second arbitration level for a route whose winner is the SM
of `r`: the credit test, the reservations, the grant and the cursors. -/
def serve (f : DsmFabric) (now : Nat) (r : Request) : Checked DsmFabric :=
  match (f.voq r.vc r.sm).front r.dst with
  | none => throw .nullHead
  | some selected => do
    let dsts := f.multicastDsts f.n r selected
    if f.hasEjectionSpace r.vc r.sm dsts then
      let b ← dsts.foldlM (fun b dst => b.reserveHead r.vc r.sm dst) f.toFabricBuffers
      let cap := FabricBuffers.packetCap f.cfg.flitPayloadBytes dsts.length selected
      let b ← FabricBuffers.grantLoop now r.vc r.sm r.dst dsts selected cap b
      return { f with
        toFabricBuffers := b
        dstNext := Function.update f.dstNext r.vc
          (Function.update (f.dstNext r.vc) r.sm ((r.dst + 1) % f.n))
        consecRsp := Function.update f.consecRsp r.sm
          (match r.vc with
          | .response => f.consecRsp r.sm + 1
          | .request => 0) }
    else return f

/-- The second arbitration level of a CPC, with the grants left. The source's
`taken >= cap` never holds inside the loop, as `taken` counts its iterations. -/
def crossbar (now : Nat) (reqs : List Request) (cpc : Nat) (winner : Nat → Option Nat) :
    Nat → DsmFabric → (Nat → Bool) → Checked DsmFabric
  | 0, f, _ => return f
  | left + 1, f, ready => do
    let (route, rr) ← (f.cpcRr cpc).grant ready f.cfg.numRoutes
    let f := { f with cpcRr := Function.update f.cpcRr cpc rr }
    match route with
    | none => return f
    | some route =>
      let ready := Function.update ready route false
      match winner route with
      | none => crossbar now reqs cpc winner left f ready
      | some sm =>
        match reqs.find? (fun r => r.sm == sm) with
        | none => throw .nullHead
        | some r =>
          let f ← f.serve now r
          crossbar now reqs cpc winner left f ready

def serveCpc (now : Nat) (reqs : List Request) (f : DsmFabric) (cpc : Nat) :
    Checked DsmFabric := do
  let (f, winner) ← f.arbitrateRoutes reqs cpc
  crossbar now reqs cpc winner f.cfg.lanesPerCpc f (fun route => (winner route).isSome)

def cycle (f : DsmFabric) (now : Nat) : Checked DsmFabric :=
  let f := f.shape now
  let reqs := f.collectRequests
  (List.range f.cfg.cpcs).foldlM (serveCpc now reqs) f

end DsmFabric

end FlashGpuSim
