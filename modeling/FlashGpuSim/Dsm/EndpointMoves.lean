import FlashGpuSim.Lib.Reach
import FlashGpuSim.Dsm.Endpoint
import FlashGpuSim.Dsm.FabricPorts

/-!
The moves an endpoint is made of. Each is one atomic change of the protocol state,
and every operation is a sequence of them. Invariants are proved for the moves only.
-/

namespace FlashGpuSim

open Lib Relation

/-- What the surroundings of an endpoint may do: the requests they issue, the mbarrier
requests that may reach the hook at a generation of their slot, the slots they recycle and their own changes of the
host state. -/
structure DsmGuard (σ : Type) where
  issue : IssueReq → Prop := fun _ => True
  deliver : Pending → Option Nat → Prop := fun _ _ => True
  bump : Nat → Nat → Prop := fun _ _ => True
  outside : σ → σ → Prop := fun _ _ => True

/-- The request that `issue_mbar` makes. -/
def IssueMbar.request (m : IssueMbar) : IssueReq :=
  { cls := .mbarrierRequest, src := m.src, dst := m.dst, bytes := 0, addr := m.mbarAddr,
    ctaSlot := m.ctaSlot, ctaGen := m.ctaGen }

/-- The events that no table is read from. -/
def DsmEvent.Silent : DsmEvent → Prop
  | .accepted _ | .applied _ | .txDone _ => False
  | _ => True

/-- The accesses of requests whose generation is the one of their slot. -/
def DsmEvent.Current : DsmEvent → Prop
  | .sramWrite p current _ | .sramRead p current _ | .tmaMbar p current =>
    current = some p.ctaGen
  | _ => False

theorem DsmEvent.Current.silent {event : DsmEvent} (h : event.Current) : event.Silent := by
  cases event <;> simp_all [Current, Silent]

namespace DsmEndpoint

variable {σ : Type}

/-- `m_extra[m_last_txid] = e`, for the requests that come with one. -/
def withExtra (e : DsmEndpoint σ) : Option Extra → DsmEndpoint σ
  | some x => e.setExtra x
  | none => e

inductive Move (host : DsmHost σ) (guard : DsmGuard σ) :
    DsmEndpoint σ → DsmEndpoint σ → Prop
  /-- the clock, and a cycle of the fabric -/
  | fabric {e : DsmEndpoint σ} {now : Nat} {fab : DsmFabric} (htime : e.now ≤ now)
      (hcycled : DsmFabric.Cycled now e.fab fab) :
      Move host guard e { e with now := now, fab := fab }
  /-- `issue_req` -/
  | accept {e : DsmEndpoint σ} {r : IssueReq} (x : Option Extra) (hissue : guard.issue r)
      (hvc : dsmVcOf r.cls = .request) (hmbar : r.cls = .mbarrierRequest → r.bytes = 0)
      (hsend : e.canSend r.cls r.src r.dst r.bytes = true) :
      Move host guard e
        ((e.accept r (e.fab.injected (e.requestPacket r))).withExtra x)
  /-- `issue_mbar` for `WAIT_DONE` -/
  | notice {e : DsmEndpoint σ} {m : IssueMbar} :
      Move host guard e { e.noticed m with pending := e.pending ++ [e.waitDone m] }
  /-- `inject_response` of an entry of `m_pending` -/
  | send {e : DsmEndpoint σ} {p : Pending} {before behind : List Pending}
      (hpending : e.pending = before ++ p :: behind)
      (hcan : e.fab.canInject p.src (dsmVcOf p.cls) p.dst (e.flitsOf p.cls p.bytes) = true) :
      Move host guard e
        { e.respond p (e.fab.injected (e.responsePacket p)) with pending := before ++ behind }
  | arriveRequest {e : DsmEndpoint σ} {sm : Nat} {p : DsmPacket}
      (htop : e.fab.top sm .request = some p) :
      Move host guard e
        ({ e with fab := e.fab.poppedHead .request sm p }.arriveRequest sm p)
  | arriveResponse {e : DsmEndpoint σ} {sm : Nat} {p : DsmPacket}
      (htop : e.fab.top sm .response = some p) :
      Move host guard e
        (arriveResponse host { e with fab := e.fab.poppedHead .response sm p } sm p)
  /-- the shared-memory services -/
  | smem {e : DsmEndpoint σ} (smem : Option (Nat → SharedMemoryService)) :
      Move host guard e { e with smem := smem }
  /-- an entry of `m_ingress` gets some of its SRAM bytes -/
  | fill {e : DsmEndpoint σ} {p : Pending} {before behind : List Pending} {got : Nat}
      (hingress : e.ingress = before ++ p :: behind) (hdone : p.sramDone = false)
      (hshort : got < p.bytes) :
      Move host guard e { e with ingress := before ++ { p with sramGot := got } :: behind }
  /-- a store is applied, with no other store for the same SM before it -/
  | store {e : DsmEndpoint σ} {p : Pending} {before behind : List Pending} (got : Nat)
      (hingress : e.ingress = before ++ p :: behind) (hdone : p.sramDone = false)
      (hstore : p.cls.isStore = true)
      (hfirst : ∀ q ∈ before, q.src = p.src → q.cls.isStore = false) :
      Move host guard e
        { notifyTmaMbar host (applyStore host e { p with sramGot := got })
            { p with sramGot := got } with ingress := before ++ behind }
  /-- a load or an atomic is applied -/
  | reply {e : DsmEndpoint σ} {p : Pending} {before behind : List Pending} (got : Nat)
      (hingress : e.ingress = before ++ p :: behind) (hdone : p.sramDone = false)
      (hcls : p.cls = .readCommand ∨ p.cls = .atomicRequest) :
      Move host guard e
        { (applySram host e { p with sramGot := got }).1 with
          ingress := before ++
            (applySram host e { p with sramGot := got }).2.served e.now :: behind }
  /-- the hook for mbarrier requests -/
  | mbarCall {e : DsmEndpoint σ} {p : Pending} {before behind : List Pending} (got : Nat)
      {fn : σ → MbarHookArgs → Bool × List IssueMbar × σ}
      (hingress : e.ingress = before ++ p :: behind) (hdone : p.sramDone = false)
      (hcls : p.cls = .mbarrierRequest)
      (hdeliver : guard.deliver p (e.generation p.src p.ctaSlot))
      (hhook : host.onMbarReq = some fn) :
      Move host guard e
        { e with
          hostState := (fn e.hostState p.hookArgs).2.2
          history := e.history ++
            [.mbarReq ({ p with sramGot := got }.served e.now) (e.generation p.src p.ctaSlot)] }
  /-- an mbarrier request is answered -/
  | mbarReply {e : DsmEndpoint σ} {p : Pending} {before behind : List Pending} (got : Nat)
      (hingress : e.ingress = before ++ p :: behind) (hdone : p.sramDone = false)
      (hcls : p.cls = .mbarrierRequest) :
      Move host guard e
        { (e.satisfyWait ({ p with sramGot := got }.served e.now)).1 with
          ingress := before ++
            { (e.satisfyWait ({ p with sramGot := got }.served e.now)).2 with
              cls := .mbarrierCompletion } :: behind }
  /-- a registered wait is dropped without an answer -/
  | mbarDrop {e : DsmEndpoint σ} {p : Pending} {before behind : List Pending}
      (hingress : e.ingress = before ++ p :: behind) (hdone : p.sramDone = false)
      (hcls : p.cls = .mbarrierRequest) :
      Move host guard e
        { completeLoad host e p.dst p.txid with ingress := before ++ behind }
  /-- a served entry becomes a response -/
  | ready {e : DsmEndpoint σ} {p : Pending} {before behind : List Pending}
      (hingress : e.ingress = before ++ p :: behind) (hdone : p.sramDone = true) :
      Move host guard e
        { e with ingress := before ++ behind, pending := e.pending ++ [p] }
  /-- `try_flush_acks` for one pair of SMs -/
  | flush {e : DsmEndpoint σ} {sm req : Nat} (howed : 0 < e.acksOwed sm req)
      (hcan : e.fab.canInject sm .response req (e.flitsOf .writeAck 0) = true) :
      Move host guard e
        { e.respond (e.ackEntry sm req) (e.fab.injected (e.responsePacket (e.ackEntry sm req))) with
          acksOwed := update₂ e.acksOwed sm req 0
          oldestAck := update₂ e.oldestAck sm req 0 }
  | bump {e : DsmEndpoint σ} {sm cta : Nat} (hbump : guard.bump sm cta) :
      Move host guard e (e.bumpCtaGen sm cta)
  | outside {e : DsmEndpoint σ} {hostState : σ} (hout : guard.outside e.hostState hostState) :
      Move host guard e { e with hostState := hostState }

abbrev Moves (host : DsmHost σ) (guard : DsmGuard σ) :
    DsmEndpoint σ → DsmEndpoint σ → Prop :=
  ReflTransGen (Move host guard)

end DsmEndpoint

end FlashGpuSim
