import FlashGpuSim.Transport

/-!
The packets of the intra-GPC DSM fabric and what their class decides: the
virtual channel and the number of payload flits.
-/

namespace FlashGpuSim

/-- `dsm_vc_t` -/
inductive DsmVc
  | request
  | response
  deriving DecidableEq, Repr

/-- `dsm_packet_class_t` -/
inductive DsmPacketClass
  | readCommand
  | readData
  | writeData
  | writeAck
  | atomicRequest
  | atomicResponse
  | tmaData
  | mbarrierRequest
  | mbarrierCompletion
  deriving DecidableEq, Repr

/-- `dsm_packet_t`. The last field is a history variable: it numbers the packets
in the order in which `inject` accepted them, and no code reads it. -/
structure DsmPacket where
  packetId : Nat := 0
  transactionId : Nat := 0
  networkSrcSmId : Nat := 0
  networkDstSmId : Nat := 0
  transactionRequesterSmId : Nat := 0
  transactionTargetSmId : Nat := 0
  vc : DsmVc := .request
  packetClass : DsmPacketClass := .writeData
  payloadBytes : Nat := 0
  totalFlits : Nat := 0
  remainingFlits : Nat := 0
  routeLane : Nat := 0
  gxPlane : Nat := 0
  payloadAddress : Nat := 0
  createdCycle : Nat := 0
  injectedCycle : Nat := 0
  tailArrivalCycle : Nat := 0
  ejectionReservedFlits : Nat := 0
  multicastGroup : Nat := 0
  completionCount : Nat := 1
  ctaSlot : Nat := 0
  ctaGen : Nat := 0
  serial : Nat := 0
  deriving DecidableEq, Repr

instance : FlitPacket DsmPacket where
  remainingFlits := DsmPacket.remainingFlits
  setRemaining p k := { p with remainingFlits := k }
  remaining_set _ _ := rfl

@[simp] theorem DsmPacket.flitPacket_remaining (p : DsmPacket) :
    FlitPacket.remainingFlits p = p.remainingFlits := rfl

@[simp] theorem DsmPacket.flitPacket_set (p : DsmPacket) (k : Nat) :
    FlitPacket.setRemaining p k = { p with remainingFlits := k } := rfl

def dsmPacketIsControl : DsmPacketClass → Bool
  | .readCommand | .writeAck | .mbarrierRequest | .mbarrierCompletion => true
  | _ => false

def dsmVcOf : DsmPacketClass → DsmVc
  | .readData | .writeAck | .atomicResponse | .mbarrierCompletion => .response
  | _ => .request

def dsmPayloadFlits (c : DsmPacketClass) (bytes flitPayloadBytes : Nat) : Nat :=
  if dsmPacketIsControl c then 1
  else
    let f := if flitPayloadBytes = 0 then 32 else flitPayloadBytes
    (bytes + f - 1) / f

/-- A control packet and a packet with a payload have at least one flit. -/
theorem dsmPayloadFlits_pos {c : DsmPacketClass} {bytes flitPayloadBytes : Nat}
    (h : dsmPacketIsControl c = true ∨ 0 < bytes) :
    0 < dsmPayloadFlits c bytes flitPayloadBytes := by
  unfold dsmPayloadFlits
  split
  · omega
  · rename_i hdata
    have hbytes : 0 < bytes := h.resolve_left hdata
    simp only
    split
    · omega
    · exact Nat.div_pos (by omega) (by omega)

end FlashGpuSim
