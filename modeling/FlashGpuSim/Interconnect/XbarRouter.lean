import FlashGpuSim.ServiceBudget
import FlashGpuSim.Lib.Tables

/-!
`xbar_router` of the local interconnect: its queues, the groups of merged TMA requests, the
deliveries of a multicast response and the arbitration loops. The statistics are left out. A
vector over the nodes is a function; the data pointers are numbers.
-/

namespace FlashGpuSim

open Lib

inductive InterconnectType
  | reqNet
  | replyNet
  deriving DecidableEq, Repr

inductive ArbitrationType
  | naiveRr
  | islip
  deriving DecidableEq, Repr

/-- `inct_config`. The numbers that are only compared with zero are flags. -/
structure InctConfig where
  inBufferLimit : Nat := 64
  outBufferLimit : Nat := 64
  arbiterAlgo : ArbitrationType := .islip
  grantCycles : Nat := 1
  useVoq : Bool := false
  multiGrantRequest : Bool := false
  multiGrantReply : Bool := false
  requestInputSectorsPerCycle : Nat := 0
  requestOutputSectorsPerCycle : Nat := 0
  replyInputSectorsPerCycle : Nat := 0
  replyOutputSectorsPerCycle : Nat := 0
  tmaRequestMulticast : Bool := false
  tmaResponseMulticast : Bool := false
  deriving DecidableEq, Repr

inductive XbarFailure
  | deviceRange
  | missingGroup
  | duplicateGroup
  | notMulticast
  | notReplyNet
  | nullData
  | duplicateDelivery
  | emptyQueue
  | outputMismatch
  | noReadyOutput
  | divisionByZero
  | budget (failure : BudgetFailure)
  deriving DecidableEq, Repr

structure XbarPacket where
  data : Nat
  outputDeviceId : Nat
  size : Nat
  dataSectors : Nat
  deriving DecidableEq, Repr

/-- What `Push` reads of a memory fetch. -/
structure XbarFetch where
  addr : Nat := 0
  isWrite : Bool := false
  /-- The access type is `TMA_ACC_R`. -/
  isTmaRead : Bool := false
  dataSize : Nat := 0
  deriving DecidableEq, Repr

/-- `SECTOR_SIZE` -/
def xbarSectorSize : Nat := 32

structure MulticastGroup where
  address : Nat
  waiters : List Nat := []
  deriving DecidableEq, Repr

/-- `request_multicast_group_tracker` -/
structure MulticastGroupTracker where
  activeMaster : Table Nat := ∅
  groups : Table MulticastGroup := ∅

namespace MulticastGroupTracker

variable (t : MulticastGroupTracker)

/-- The flag is false when the item waits for the master of its address. -/
def admitItem (address item : Nat) : Except XbarFailure (Bool × MulticastGroupTracker) :=
  match t.activeMaster.lookup address with
  | some master =>
    match t.groups.lookup master with
    | none => .error .missingGroup
    | some group => .ok (false, { t with
        groups := t.groups.insert master { group with waiters := group.waiters ++ [item] } })
  | none => do
    require (t.groups.lookup item).isNone .duplicateGroup
    return (true, {
      activeMaster := t.activeMaster.insert address item
      groups := t.groups.insert item { address := address } })

def closeAddress (address : Nat) : MulticastGroupTracker :=
  { t with activeMaster := t.activeMaster.erase address }

/-- The waiters of a master that leaves the network. -/
def closeMaster (master : Nat) : List Nat × MulticastGroupTracker :=
  match t.groups.lookup master with
  | none => ([], t)
  | some group => (group.waiters, {
      activeMaster := if t.activeMaster.lookup group.address = some master
        then t.activeMaster.erase group.address else t.activeMaster
      groups := t.groups.erase master })

end MulticastGroupTracker

/-- What the constructor of a router fixes. -/
structure Xbar where
  routerType : InterconnectType
  nShader : Nat
  nMem : Nat
  config : InctConfig
  deriving DecidableEq, Repr

namespace Xbar

variable (x : Xbar)

def totalNodes : Nat := x.nShader + x.nMem

def isRequest : Bool := x.routerType == .reqNet

def allowMultiGrant : Bool :=
  if x.isRequest then x.config.multiGrantRequest else x.config.multiGrantReply

def inputSectorWidth : Nat :=
  if x.isRequest then x.config.requestInputSectorsPerCycle
  else x.config.replyInputSectorsPerCycle

def outputSectorWidth : Nat :=
  if x.isRequest then x.config.requestOutputSectorsPerCycle
  else x.config.replyOutputSectorsPerCycle

def tmaRequestMulticast : Bool := x.isRequest && x.config.tmaRequestMulticast

def tmaResponseMulticast : Bool := !x.isRequest && x.config.tmaResponseMulticast

def activeInBuffers : Nat := if x.isRequest then x.nShader else x.nMem

def activeOutBuffers : Nat := if x.isRequest then x.nMem else x.nShader

def activeInBufferBase : Nat := if x.isRequest then 0 else x.nShader

def activeOutBufferBase : Nat := if x.isRequest then x.nShader else 0

def inputQueueIndex (output : Nat) : Nat := if x.config.useVoq then output else 0

/-- The inputs, in the order of a loop that starts at an offset. -/
def inputsFrom (offset : Nat) : List Nat :=
  (List.range x.activeInBuffers).map fun k =>
    x.activeInBufferBase + (k + offset) % x.activeInBuffers

def outputsFrom (offset : Nat) : List Nat :=
  (List.range x.activeOutBuffers).map fun k =>
    x.activeOutBufferBase + (k + offset) % x.activeOutBuffers

end Xbar

/-- The state of a router. What was pushed, popped and granted so far is for the proofs only. -/
structure XbarRouter where
  inBuffers : Nat → Nat → List XbarPacket := fun _ _ => []
  outBuffers : Nat → List XbarPacket := fun _ => []
  multicastDeliveryBuffers : Nat → List XbarPacket := fun _ => []
  inBufferOccupancy : Nat → Nat := fun _ => 0
  nextNode : Nat → Nat := fun _ => 0
  nextOutput : Nat → Nat := fun _ => 0
  nextNodeId : Nat := 0
  nextOutputId : Nat := 0
  cycles : Nat := 0
  grantCyclesCount : Nat
  tmaMulticastGroups : MulticastGroupTracker := {}
  tmaResponseMulticastDeliveries : Table (List XbarPacket) := ∅
  inputBudgets : Nat → ServiceBudget := fun _ => {}
  outputBudgets : Nat → ServiceBudget := fun _ => {}
  pushed : List (Nat × Nat) := []
  popped : List (Nat × Nat) := []
  grants : List (Nat × Nat) := []

namespace XbarRouter

variable (x : Xbar) (r : XbarRouter)

def init : XbarRouter := { grantCyclesCount := x.config.grantCycles }

def hasBufferIn (input size : Nat) : Bool :=
  decide (r.inBufferOccupancy input + size ≤ x.config.inBufferLimit)

def hasBufferOut (output size : Nat) : Bool :=
  decide ((r.outBuffers output).length + size ≤ x.config.outBufferLimit)

/-- The end of `Push`: the packet enters the queue of its input. -/
def enqueue (input : Nat) (packet : XbarPacket) : XbarRouter :=
  let queue := x.inputQueueIndex packet.outputDeviceId
  { r with
    inBuffers := Function.update r.inBuffers input
      (Function.update (r.inBuffers input) queue (r.inBuffers input queue ++ [packet]))
    inBufferOccupancy := Function.update r.inBufferOccupancy input
      (r.inBufferOccupancy input + 1) }

/-- `Push` without the record of what was pushed. -/
def pushPacket (input : Nat) (packet : XbarPacket) (fetch : XbarFetch) :
    Except XbarFailure XbarRouter := do
  require (decide (input < x.totalNodes)) .deviceRange
  require (decide (packet.outputDeviceId < x.totalNodes)) .deviceRange
  let sectorAddr := fetch.addr - fetch.addr % xbarSectorSize
  if !x.tmaRequestMulticast then return r.enqueue x input packet
  else if !fetch.isWrite && fetch.isTmaRead && fetch.dataSize == xbarSectorSize then do
    let (admitted, tracker) ← r.tmaMulticastGroups.admitItem sectorAddr packet.data
    let r := { r with tmaMulticastGroups := tracker }
    return if admitted then r.enqueue x input packet else r
  else
    let r := { r with tmaMulticastGroups := r.tmaMulticastGroups.closeAddress sectorAddr }
    return r.enqueue x input packet

def push (input : Nat) (packet : XbarPacket) (fetch : XbarFetch) :
    Except XbarFailure XbarRouter := do
  let r ← r.pushPacket x input packet fetch
  return { r with pushed := r.pushed ++ [(packet.data, packet.outputDeviceId)] }

def pushMulticast (input : Nat) (packet : XbarPacket) (fetch : XbarFetch)
    (destinations : List (Nat × Nat)) : Except XbarFailure XbarRouter := do
  require x.tmaResponseMulticast .notMulticast
  require (x.routerType == .replyNet) .notReplyNet
  require (packet.data != 0) .nullData
  require (r.tmaResponseMulticastDeliveries.lookup packet.data).isNone .duplicateDelivery
  require (destinations.all fun d => decide (d.1 < x.totalNodes)) .deviceRange
  require (destinations.all fun d => d.2 != 0) .nullData
  let deliveries := destinations.map fun d => { packet with data := d.2, outputDeviceId := d.1 }
  let r := { r with
    tmaResponseMulticastDeliveries :=
      r.tmaResponseMulticastDeliveries.insert packet.data deliveries
    pushed := r.pushed ++ destinations.map Prod.swap }
  r.push x input packet fetch

/-- Packets enter the delivery buffers of their outputs. -/
def deliver (packets : List XbarPacket) : XbarRouter :=
  { r with multicastDeliveryBuffers := fun output => r.multicastDeliveryBuffers output ++
      packets.filter fun p => p.outputDeviceId = output }

/-- The end of `Pop`: the data pointer that is handed out. -/
def handOut (output : Nat) (packet : XbarPacket) : Option Nat × XbarRouter :=
  (some packet.data, { r with popped := r.popped ++ [(packet.data, output)] })

/-- The waiters of a popped request master. -/
def closeRequest (output : Nat) (packet : XbarPacket) : XbarRouter :=
  if x.tmaRequestMulticast then
    let (waiters, tracker) := r.tmaMulticastGroups.closeMaster packet.data
    { r with
      tmaMulticastGroups := tracker
      multicastDeliveryBuffers := Function.update r.multicastDeliveryBuffers output
        (r.multicastDeliveryBuffers output ++ waiters.map fun w => { packet with data := w }) }
  else r

/-- The deliveries that wait for the pop of a response master. -/
def closeResponse (packet : XbarPacket) : XbarRouter :=
  if x.tmaResponseMulticast then
    match r.tmaResponseMulticastDeliveries.lookup packet.data with
    | none => r
    | some deliveries => { r.deliver deliveries with
        tmaResponseMulticastDeliveries := r.tmaResponseMulticastDeliveries.erase packet.data }
  else r

/-- `Pop`. A null pointer is `none`. -/
def pop (output : Nat) : Except XbarFailure (Option Nat × XbarRouter) := do
  require (decide (output < x.totalNodes)) .deviceRange
  let multicast := x.tmaRequestMulticast || x.tmaResponseMulticast
  match r.multicastDeliveryBuffers output, r.outBuffers output with
  | packet :: rest, out =>
    if multicast then
      return { r with multicastDeliveryBuffers :=
        Function.update r.multicastDeliveryBuffers output rest }.handOut output packet
    else match out with
    | [] => return (none, r)
    | packet :: rest => return { r with
        outBuffers := Function.update r.outBuffers output rest }.handOut output packet
  | [], [] => return (none, r)
  | [], packet :: rest =>
    let r := { r with outBuffers := Function.update r.outBuffers output rest }
    return ((r.closeRequest x output packet).closeResponse x packet).handOut output packet

def top (output : Nat) : Except XbarFailure (Option Nat) := do
  require (decide (output < x.totalNodes)) .deviceRange
  let delivery := if x.tmaRequestMulticast || x.tmaResponseMulticast
    then r.multicastDeliveryBuffers output else []
  return ((delivery ++ r.outBuffers output).head?).map (·.data)

def inputHasPackets (input : Nat) : Bool := decide (0 < r.inBufferOccupancy input)

def inputHasPacketForOutput (input output : Nat) : Bool :=
  match r.inBuffers input (x.inputQueueIndex output) with
  | [] => false
  | packet :: _ => x.config.useVoq || packet.outputDeviceId == output

def inputPacketForOutput (input output : Nat) : Option XbarPacket :=
  if r.inputHasPacketForOutput x input output
  then (r.inBuffers input (x.inputQueueIndex output)).head? else none

def firstReadyOutput (input : Nat) : Except XbarFailure Nat := do
  require (r.inputHasPackets input) .emptyQueue
  if x.config.useVoq then
    match (x.outputsFrom 0).find? fun output => !(r.inBuffers input output).isEmpty with
    | none => .error .noReadyOutput
    | some output => return output
  else
    match r.inBuffers input 0 with
    | [] => .error .emptyQueue
    | packet :: _ => return packet.outputDeviceId

/-- The deliveries of a response master that reaches its output: those for other outputs do not
wait for its pop. -/
def splitDeliveries (output : Nat) (packet : XbarPacket) : XbarRouter :=
  if x.tmaResponseMulticast then
    match r.tmaResponseMulticastDeliveries.lookup packet.data with
    | none => r
    | some deliveries =>
      let sameOutput := deliveries.filter fun p => p.outputDeviceId = output
      { r.deliver (deliveries.filter fun p => p.outputDeviceId ≠ output) with
        tmaResponseMulticastDeliveries := if sameOutput.isEmpty
          then r.tmaResponseMulticastDeliveries.erase packet.data
          else r.tmaResponseMulticastDeliveries.insert packet.data sameOutput }
  else r

/-- The head of an input queue enters the queue of its output. -/
def moveHead (input output : Nat) (packet : XbarPacket) (rest : List XbarPacket) :
    XbarRouter := { r with
  outBuffers := Function.update r.outBuffers output (r.outBuffers output ++ [packet])
  inBuffers := Function.update r.inBuffers input
    (Function.update (r.inBuffers input) (x.inputQueueIndex output) rest)
  inBufferOccupancy := Function.update r.inBufferOccupancy input (r.inBufferOccupancy input - 1)
  grants := r.grants ++ [(input, output)] }

def transferPacket (input output : Nat) : Except XbarFailure XbarRouter := do
  require (decide (input < x.totalNodes)) .deviceRange
  require (decide (output < x.totalNodes)) .deviceRange
  match r.inBuffers input (x.inputQueueIndex output) with
  | [] => .error .emptyQueue
  | packet :: rest => do
    require (decide (0 < r.inBufferOccupancy input)) .emptyQueue
    require (packet.outputDeviceId == output) .outputMismatch
    return (r.moveHead x input output packet rest).splitDeliveries x output packet

/-- The flag `active` of `CollectRequestStats`. -/
def anyRequest : Bool := (x.inputsFrom 0).any fun input => r.inputHasPackets input

/-- The end of an arbitration: `grant_cycles_count`. -/
def countGrantCycles (active : Bool) : XbarRouter :=
  if active && r.grantCyclesCount == 1 then { r with grantCyclesCount := x.config.grantCycles }
  else if active then
    { r with grantCyclesCount := (r.grantCyclesCount + (2 ^ 32 - 1)) % 2 ^ 32 }
  else r

/-- One output of `iSLIP_Advance`, with the inputs that were granted in this cycle. -/
def islipOutput (granted : List Nat) (output : Nat) :
    Except XbarFailure (XbarRouter × List Nat) := do
  if !r.hasBufferOut x output 1 then return (r, granted)
  else
    let ready := fun input => (x.allowMultiGrant || !granted.contains input) &&
      r.inputHasPacketForOutput x input output
    match (x.inputsFrom (r.nextNode output)).find? ready with
    | none => return (r, granted)
    | some input => do
      let r ← r.transferPacket x input output
      let granted := if x.allowMultiGrant then granted else granted ++ [input]
      let next := if x.config.useVoq then (input - x.activeInBufferBase + 1) % x.activeInBuffers
        else (input + 1) % x.activeInBuffers
      return (if r.grantCyclesCount = 1
        then { r with nextNode := Function.update r.nextNode output next } else r, granted)

def islipAdvance : Except XbarFailure XbarRouter := do
  let active := r.anyRequest x
  let offset := if x.config.useVoq && !x.allowMultiGrant then r.cycles else 0
  let (r, _) ← (x.outputsFrom offset).foldlM (fun s output => islipOutput x s.1 s.2 output)
    (r, [])
  let r := r.countGrantCycles x active
  return { r with cycles := r.cycles + 1 }

/-- One node of `RR_Advance`, with the outputs that were issued in this cycle. -/
def rrNode (issued : List Nat) (node : Nat) : Except XbarFailure (XbarRouter × List Nat) := do
  if x.activeInBufferBase ≤ node ∧ node < x.activeInBufferBase + x.activeInBuffers ∧
      r.inputHasPackets node = true then do
    let output ← r.firstReadyOutput x node
    require (decide (output < x.totalNodes)) .deviceRange
    if r.hasBufferOut x output 1 && !issued.contains output then do
      let r ← r.transferPacket x node output
      return (r, issued ++ [output])
    else return (r, issued)
  else return (r, issued)

def rrAdvance : Except XbarFailure XbarRouter := do
  let nodes := (List.range x.totalNodes).map fun i => (i + r.nextNodeId) % x.totalNodes
  let (r, _) ← nodes.foldlM (fun s node => rrNode x s.1 s.2 node) (r, [])
  require (x.totalNodes != 0) .divisionByZero
  return { r with
    nextNodeId := (r.nextNodeId + 1) % x.totalNodes
    cycles := r.cycles + 1 }

/-- The variables of `NumericAdvance` over its rounds. -/
structure NumericTick where
  router : XbarRouter
  inputGrants : Nat → Nat := fun _ => 0
  outputGrants : Nat → Nat := fun _ => 0
  pairs : Nat → Nat → Bool := fun _ _ => false
  downstreamSeen : Nat → Bool := fun _ => false
  inputReserved : Nat → Bool := fun _ => false
  outputReserved : Nat → Bool := fun _ => false

namespace NumericTick

variable (t : NumericTick)

def mapInputBudget (input : Nat) (f : ServiceBudget → ServiceBudget) : NumericTick :=
  { t with router := { t.router with
      inputBudgets := Function.update t.router.inputBudgets input (f (t.router.inputBudgets input)) } }

def mapOutputBudget (output : Nat) (f : ServiceBudget → ServiceBudget) : NumericTick :=
  { t with router := { t.router with
      outputBudgets := Function.update t.router.outputBudgets output (f (t.router.outputBudgets output)) } }

def isIslip : Bool := x.config.arbiterAlgo == .islip

/-- A packet that has to save credit. -/
def needsCredit (width : Nat) (budget : ServiceBudget) (packet : XbarPacket) : Bool :=
  width != 0 && decide (width < memoryTransportServiceSlots packet.dataSectors) &&
    !budget.canAccept packet.dataSectors

/-- What the two `CanGrant` functions ask of a budget. -/
def budgetGrants (width : Nat) (budget : ServiceBudget) (packet : XbarPacket) : Bool :=
  !(decide (budget.reservedCredit ≠ 0) &&
    decide (memoryTransportServiceSlots packet.dataSectors ≤ width)) &&
    budget.canAccept packet.dataSectors

def inputCanGrant (input output : Nat) (packet : XbarPacket) : Bool :=
  if x.inputSectorWidth ≠ 0 then
    budgetGrants x.inputSectorWidth (t.router.inputBudgets input) packet
  else if !isIslip x || !x.allowMultiGrant then t.inputGrants input == 0
  else !t.pairs input output

def outputCanGrant (output : Nat) (packet : XbarPacket) : Bool :=
  if x.outputSectorWidth ≠ 0 then
    budgetGrants x.outputSectorWidth (t.router.outputBudgets output) packet
  else t.outputGrants output == 0

def noteDownstreamFull (output : Nat) : NumericTick :=
  if t.downstreamSeen output then t
  else { t.mapOutputBudget output ServiceBudget.noteDownstreamFull with
    downstreamSeen := Function.update t.downstreamSeen output true }

/-- The budgets of a packet without credit, and the credit that is reserved for it. -/
def reserveCredit (input output : Nat) (packet : XbarPacket) : NumericTick :=
  let inputNeeds := needsCredit x.inputSectorWidth (t.router.inputBudgets input) packet
  let outputNeeds := needsCredit x.outputSectorWidth (t.router.outputBudgets output) packet
  let t := if inputNeeds then
    { t.mapInputBudget input (·.noteWidthLimited packet.dataSectors) with
      inputReserved := Function.update t.inputReserved input true } else t
  if outputNeeds then
    { t.mapOutputBudget output (·.noteWidthLimited packet.dataSectors) with
      outputReserved := Function.update t.outputReserved output true }
  else t

def consumeBudget (width : Nat) (budget : ServiceBudget) (packet : XbarPacket) :
    Except XbarFailure ServiceBudget :=
  if width ≠ 0 then (budget.consume packet.dataSectors).mapError .budget else .ok budget

/-- A grant: the budgets, the packet and the counts. -/
def grant (input output : Nat) (packet : XbarPacket) : Except XbarFailure NumericTick := do
  let inputBudget ← consumeBudget x.inputSectorWidth (t.router.inputBudgets input) packet
  let outputBudget ← consumeBudget x.outputSectorWidth (t.router.outputBudgets output) packet
  let t := (t.mapInputBudget input fun _ => inputBudget).mapOutputBudget output
    fun _ => outputBudget
  let router ← t.router.transferPacket x input output
  return { t with
    router := router
    inputGrants := Function.update t.inputGrants input (t.inputGrants input + 1)
    outputGrants := Function.update t.outputGrants output (t.outputGrants output + 1)
    pairs := Function.update t.pairs input (Function.update (t.pairs input) output true) }

/-- The inputs that an output of the iSLIP rounds tries. The flag says that one was granted. -/
def islipInputs (output : Nat) : List Nat → NumericTick → Except XbarFailure (Bool × NumericTick)
  | [], t => .ok (false, t)
  | input :: rest, t =>
    if t.inputReserved input then islipInputs output rest t
    else match t.router.inputPacketForOutput x input output with
    | none => islipInputs output rest t
    | some packet =>
      let inputNeeds := needsCredit x.inputSectorWidth (t.router.inputBudgets input) packet
      let outputNeeds := needsCredit x.outputSectorWidth (t.router.outputBudgets output) packet
      if outputNeeds then .ok (false, t.reserveCredit x input output packet)
      else if inputNeeds then islipInputs output rest (t.reserveCredit x input output packet)
      else if !t.inputCanGrant x input output packet || !t.outputCanGrant x output packet then
        islipInputs output rest t
      else do
        let t ← t.grant x input output packet
        let next := (input - x.activeInBufferBase + 1) % x.activeInBuffers
        return (true, if t.router.grantCyclesCount = 1
          then { t with router := { t.router with
            nextNode := Function.update t.router.nextNode output next } } else t)

/-- An output of an iSLIP round. -/
def islipOutput (output : Nat) : Except XbarFailure (Bool × NumericTick) :=
  if t.outputReserved output then .ok (false, t)
  else if !t.router.hasBufferOut x output 1 then
    .ok (false, if (x.inputsFrom 0).any fun input =>
        t.router.inputHasPacketForOutput x input output
      then t.noteDownstreamFull output else t)
  else islipInputs x output (x.inputsFrom (t.router.nextNode output)) t

/-- The outputs that an input of the round-robin rounds tries. -/
def rrOutputs (input : Nat) : List Nat → NumericTick → Except XbarFailure (Bool × NumericTick)
  | [], t => .ok (false, t)
  | output :: rest, t =>
    match t.router.inputPacketForOutput x input output with
    | none => rrOutputs input rest t
    | some packet =>
      if t.outputReserved output then rrOutputs input rest t
      else if !t.router.hasBufferOut x output 1 then
        rrOutputs input rest (t.noteDownstreamFull output)
      else
        let inputNeeds := needsCredit x.inputSectorWidth (t.router.inputBudgets input) packet
        let outputNeeds := needsCredit x.outputSectorWidth (t.router.outputBudgets output) packet
        if inputNeeds then .ok (false, t.reserveCredit x input output packet)
        else if outputNeeds then rrOutputs input rest (t.reserveCredit x input output packet)
        else if !t.inputCanGrant x input output packet || !t.outputCanGrant x output packet then
          rrOutputs input rest t
        else do
          let t ← t.grant x input output packet
          let next := (output - x.activeOutBufferBase + 1) % x.activeOutBuffers
          return (true, { t with router := { t.router with
            nextOutput := Function.update t.router.nextOutput input next } })

/-- An input of a round-robin round. -/
def rrInput (input : Nat) : Except XbarFailure (Bool × NumericTick) :=
  if t.inputReserved input || !t.router.inputHasPackets input then .ok (false, t)
  else if x.config.useVoq then
    rrOutputs x input (x.outputsFrom (t.router.nextOutput input)) t
  else if x.activeOutBuffers = 0 then .ok (false, t)
  else do
    let output ← t.router.firstReadyOutput x input
    rrOutputs x input [output] t

def round (number : Nat) : Except XbarFailure (Bool × NumericTick) :=
  if isIslip x then
    (x.outputsFrom (t.router.nextOutputId + number)).foldlM (fun s output => do
      let (granted, t) ← islipOutput x s.2 output
      return (s.1 || granted, t)) (false, t)
  else
    (x.inputsFrom (t.router.nextNodeId + number)).foldlM (fun s input => do
      let (granted, t) ← rrInput x s.2 input
      return (s.1 || granted, t)) (false, t)

/-- Rounds until one grants nothing. -/
def rounds : Nat → Nat → NumericTick → Except XbarFailure NumericTick
  | 0, _, t => .ok t
  | remaining + 1, number, t => do
    let (progress, t) ← t.round x number
    if progress then rounds remaining (number + 1) t else return t

/-- A queued packet whose budget keeps it from being granted. -/
def widthKeeps (width : Nat) (budget : ServiceBudget) (packet : XbarPacket) : Bool :=
  !budget.canAccept packet.dataSectors ||
    decide (width < memoryTransportServiceSlots packet.dataSectors)

/-- The outputs that the packets of an input may be for. -/
def queuedOutputs (input : Nat) : Except XbarFailure (List Nat) :=
  if x.config.useVoq then .ok (x.outputsFrom 0)
  else do
    let output ← t.router.firstReadyOutput x input
    return [output]

def limitInput (input : Nat) : Except XbarFailure NumericTick :=
  if !t.router.inputHasPackets input then .ok t
  else if x.inputSectorWidth = 0 then
    let oneGrantPerTick := !isIslip x || !x.allowMultiGrant
    .ok (if (oneGrantPerTick && t.inputGrants input != 0) ||
        (!oneGrantPerTick && decide (x.activeOutBuffers ≤ t.inputGrants input))
      then t.mapInputBudget input (·.noteWidthLimited 0) else t)
  else do
    let outputs ← t.queuedOutputs x input
    return outputs.foldl (fun t output =>
      match t.router.inputPacketForOutput x input output with
      | none => t
      | some packet => if widthKeeps x.inputSectorWidth (t.router.inputBudgets input) packet
        then t.mapInputBudget input (·.noteWidthLimited packet.dataSectors) else t) t

def limitOutput (output : Nat) : NumericTick :=
  let packets := (x.inputsFrom 0).filterMap fun input =>
    t.router.inputPacketForOutput x input output
  let t := packets.foldl (fun t packet =>
    if x.outputSectorWidth ≠ 0 ∧
        widthKeeps x.outputSectorWidth (t.router.outputBudgets output) packet = true
      then t.mapOutputBudget output (·.noteWidthLimited packet.dataSectors) else t) t
  if !packets.isEmpty && x.outputSectorWidth == 0 && t.outputGrants output != 0
    then t.mapOutputBudget output (·.noteWidthLimited 0) else t

end NumericTick

/-- The budgets of some nodes, one after the other. -/
def forBudgets (nodes : List Nat) (f : ServiceBudget → Except XbarFailure ServiceBudget)
    (budgets : Nat → ServiceBudget) : Except XbarFailure (Nat → ServiceBudget) :=
  nodes.foldlM (fun budgets node => do
    let budget ← f (budgets node)
    return Function.update budgets node budget) budgets

def numericAdvance : Except XbarFailure XbarRouter := do
  let active := r.anyRequest x
  let inputs := x.inputsFrom 0
  let outputs := x.outputsFrom 0
  let inputBudgets ← forBudgets inputs (fun b => .ok (b.beginTick x.inputSectorWidth))
    r.inputBudgets
  let outputBudgets ← forBudgets outputs (fun b => .ok (b.beginTick x.outputSectorWidth))
    r.outputBudgets
  let queuedPackets := (inputs.map r.inBufferOccupancy).sum
  let r := { r with inputBudgets := inputBudgets, outputBudgets := outputBudgets }
  let t ← NumericTick.rounds x queuedPackets 0 { router := r }
  let t ← inputs.foldlM (fun t input => NumericTick.limitInput x t input) t
  let t := outputs.foldl (fun t output => NumericTick.limitOutput x t output) t
  let r := t.router
  let inputBudgets ← forBudgets inputs (fun b => b.endTick.mapError .budget) r.inputBudgets
  let outputBudgets ← forBudgets outputs (fun b => b.endTick.mapError .budget) r.outputBudgets
  require (x.activeInBuffers != 0 && x.activeOutBuffers != 0) .divisionByZero
  let r := { r with
    inputBudgets := inputBudgets
    outputBudgets := outputBudgets
    nextNodeId := (r.nextNodeId + 1) % x.activeInBuffers
    nextOutputId := (r.nextOutputId + 1) % x.activeOutBuffers }
  let r := r.countGrantCycles x active
  return { r with cycles := r.cycles + 1 }

def advance : Except XbarFailure XbarRouter :=
  if x.inputSectorWidth ≠ 0 ∨ x.outputSectorWidth ≠ 0 then r.numericAdvance x
  else match x.config.arbiterAlgo with
  | .naiveRr => r.rrAdvance x
  | .islip => r.islipAdvance x

def busy : Bool :=
  (List.range x.totalNodes).any fun i => decide (0 < r.inBufferOccupancy i) ||
    !(r.outBuffers i).isEmpty || !(r.multicastDeliveryBuffers i).isEmpty

end XbarRouter

/-- The calls of a router. -/
inductive XbarCall
  | push (input : Nat) (packet : XbarPacket) (fetch : XbarFetch)
  | pushMulticast (input : Nat) (packet : XbarPacket) (fetch : XbarFetch)
    (destinations : List (Nat × Nat))
  | advance
  | pop (output : Nat)
  deriving DecidableEq, Repr

/-- A call; `Pop` hands the data out. -/
def XbarRouter.step (x : Xbar) (r : XbarRouter) : XbarCall → Except XbarFailure XbarRouter
  | .push input packet fetch => r.push x input packet fetch
  | .pushMulticast input packet fetch destinations =>
    r.pushMulticast x input packet fetch destinations
  | .advance => r.advance x
  | .pop output => do
    let (_, r) ← r.pop x output
    return r

namespace XbarRouter

variable {x : Xbar} {r r' : XbarRouter} {input output : Nat}

theorem splitDeliveries_frame (x : Xbar) (r : XbarRouter) (output : Nat) (packet : XbarPacket) :
    ∃ buffers deliveries, r.splitDeliveries x output packet = { r with
      multicastDeliveryBuffers := buffers
      tmaResponseMulticastDeliveries := deliveries } := by
  unfold splitDeliveries
  split
  · split
    · exact ⟨_, _, rfl⟩
    · exact ⟨_, _, rfl⟩
  · exact ⟨_, _, rfl⟩

theorem transferPacket_ok (hok : r.transferPacket x input output = .ok r') :
    input < x.totalNodes ∧ output < x.totalNodes ∧ ∃ packet rest,
      r.inBuffers input (x.inputQueueIndex output) = packet :: rest ∧
      0 < r.inBufferOccupancy input ∧ packet.outputDeviceId = output ∧
      r' = (r.moveHead x input output packet rest).splitDeliveries x output packet := by
  obtain ⟨_, hin, hok⟩ := bind_eq_ok hok
  obtain ⟨_, hout, hok⟩ := bind_eq_ok hok
  refine ⟨require_ok hin, require_ok hout, ?_⟩
  cases hqueue : r.inBuffers input (x.inputQueueIndex output) with
  | nil =>
    rw [hqueue] at hok
    cases hok
  | cons packet rest =>
    rw [hqueue] at hok
    obtain ⟨_, hocc, hok⟩ := bind_eq_ok hok
    obtain ⟨_, heq, hok⟩ := bind_eq_ok hok
    cases hok
    exact ⟨packet, rest, rfl, require_ok hocc, by simpa using require_true heq, rfl⟩

end XbarRouter

end FlashGpuSim
