import FlashGpuSim.Dsm.FabricRun
import FlashGpuSim.Lib.RoundRobin

/-!
The turns of a cycle: the routes that the crossbar of each CPC picks, with the requests of their
winners and whether these passed the credit test. A cycle that keeps its turns is the cycle.
-/

namespace FlashGpuSim

open Lib

namespace DsmFabric

/-- A route that the crossbar picked, the request of its winner, and whether the head passed the
credit test. -/
structure Turn where
  route : Nat
  request : Request
  granted : Bool
  deriving DecidableEq, Repr

/-- What a cycle did in one CPC. -/
structure CpcService where
  cpc : Nat
  requests : List Request
  winner : Nat → Option Nat
  turns : List Turn
  after : DsmFabric

/-- `crossbar` with its turns. -/
def crossbarTurns (now : Nat) (reqs : List Request) (cpc : Nat) (winner : Nat → Option Nat) :
    Nat → DsmFabric → (Nat → Bool) → Checked (List Turn × DsmFabric)
  | 0, f, _ => return ([], f)
  | left + 1, f, ready => do
    let (route, rr) ← (f.cpcRr cpc).grant ready f.cfg.numRoutes
    let f := { f with cpcRr := Function.update f.cpcRr cpc rr }
    match route with
    | none => return ([], f)
    | some route =>
      let ready := Function.update ready route false
      match winner route with
      | none => crossbarTurns now reqs cpc winner left f ready
      | some sm =>
        match reqs.find? (fun r => r.sm == sm) with
        | none => throw .nullHead
        | some r =>
          let g ← f.serve now r
          let (turns, h) ← crossbarTurns now reqs cpc winner left g ready
          return (⟨route, r, f.grantable r⟩ :: turns, h)

/-- `serveCpc` with its turns. -/
def serveCpcTurns (now : Nat) (reqs : List Request) (f : DsmFabric) (cpc : Nat) :
    Checked (CpcService × DsmFabric) := do
  let (f, winner) ← f.arbitrateRoutes reqs cpc
  let (turns, g) ← crossbarTurns now reqs cpc winner f.cfg.lanesPerCpc f
    (fun route => (winner route).isSome)
  return (⟨cpc, reqs, winner, turns, g⟩, g)

/-- The loop of `cycle` over the CPCs, with their turns. -/
def serveCpcs (now : Nat) (reqs : List Request) :
    List Nat → DsmFabric → Checked (List CpcService × DsmFabric)
  | [], f => return ([], f)
  | cpc :: rest, f => do
    let (service, f) ← serveCpcTurns now reqs f cpc
    let (services, f) ← serveCpcs now reqs rest f
    return (service :: services, f)

/-- `cycle` with the turns of every CPC. -/
def cycleTurns (f : DsmFabric) (now : Nat) : Checked (List CpcService × DsmFabric) :=
  let f := f.shape now
  serveCpcs now f.collectRequests (List.range f.cfg.cpcs) f

theorem crossbarTurns_snd (now : Nat) (reqs : List Request) (cpc : Nat)
    (winner : Nat → Option Nat) (left : Nat) (f : DsmFabric) (ready : Nat → Bool) :
    Prod.snd <$> crossbarTurns now reqs cpc winner left f ready =
      crossbar now reqs cpc winner left f ready := by
  induction left generalizing f ready with
  | zero => rfl
  | succ left ih =>
    unfold crossbarTurns crossbar
    cases hgrant : (f.cpcRr cpc).grant ready f.cfg.numRoutes with
    | error e => rfl
    | ok result =>
      obtain ⟨route, rr⟩ := result
      cases route with
      | none => rfl
      | some route =>
        dsimp only [bind, Except.bind]
        cases hwinner : winner route with
        | none => exact ih _ _
        | some sm =>
          dsimp only
          cases hfind : reqs.find? (fun r => r.sm == sm) with
          | none => rfl
          | some r =>
            dsimp only
            cases hserve : DsmFabric.serve { f with
                cpcRr := Function.update f.cpcRr cpc rr } now r with
            | error e => rfl
            | ok g =>
              dsimp only
              rw [← ih]
              cases crossbarTurns now reqs cpc winner left g
                (Function.update ready route false) <;> rfl

theorem serveCpcTurns_snd (now : Nat) (reqs : List Request) (f : DsmFabric) (cpc : Nat) :
    Prod.snd <$> serveCpcTurns now reqs f cpc = serveCpc now reqs f cpc := by
  unfold serveCpcTurns serveCpc
  cases f.arbitrateRoutes reqs cpc with
  | error e => rfl
  | ok result =>
    dsimp only [bind, Except.bind]
    rw [← crossbarTurns_snd]
    cases crossbarTurns now reqs cpc result.2 result.1.cfg.lanesPerCpc result.1
      (fun route => (result.2 route).isSome) <;> rfl

theorem serveCpcs_snd (now : Nat) (reqs : List Request) (todo : List Nat) (f : DsmFabric) :
    Prod.snd <$> serveCpcs now reqs todo f = todo.foldlM (serveCpc now reqs) f := by
  induction todo generalizing f with
  | nil => rfl
  | cons cpc rest ih =>
    rw [List.foldlM_cons, ← serveCpcTurns_snd]
    unfold serveCpcs
    cases serveCpcTurns now reqs f cpc with
    | error e => rfl
    | ok result =>
      dsimp only [bind, Except.bind, Functor.map, Except.map]
      rw [← ih]
      cases serveCpcs now reqs rest result.2 <;> rfl

/-- The turns are only watched. -/
theorem cycleTurns_snd (f : DsmFabric) (now : Nat) :
    Prod.snd <$> f.cycleTurns now = f.cycle now := serveCpcs_snd _ _ _ _

end DsmFabric

end FlashGpuSim
