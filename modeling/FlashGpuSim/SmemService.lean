import Mathlib.Algebra.Order.Ring.Nat
import Mathlib.Logic.Function.Basic

/-!
`shared_memory_service_t`: the bytes of shared memory that the clients of one SM may
move in a cycle.
-/

namespace FlashGpuSim

/-- `NCLIENT`; the clients are `LSU`, `TMA` and `DSM`. -/
def kSmemClients : Nat := 3

/-- `shared_memory_service_t::DSM` -/
def kSmemDsm : Nat := 2

structure SharedMemoryService where
  budget : Nat := 0
  rr : Nat := 0
  exposed : Nat → Nat := fun _ => 0
  granted : Nat → Nat := fun _ => 0

namespace SharedMemoryService

def expose (s : SharedMemoryService) (client bytes : Nat) : SharedMemoryService :=
  { s with
    exposed :=
      if client < kSmemClients then
        Function.update s.exposed client ((s.exposed client + bytes) % 2 ^ 32)
      else s.exposed }

/-- The bytes `take` hands out. -/
def grant (s : SharedMemoryService) (client bytes : Nat) : Nat :=
  if client < kSmemClients then min bytes (s.granted client) else 0

def take (s : SharedMemoryService) (client bytes : Nat) : Nat × SharedMemoryService :=
  (s.grant client bytes,
    { s with
      granted := Function.update s.granted client (s.granted client - s.grant client bytes) })

/-- One client's turn in `cycle`: the bytes that remain, and the grants so far. -/
def cycleClient (s : SharedMemoryService) (state : Nat × (Nat → Nat)) (k : Nat) :
    Nat × (Nat → Nat) :=
  let (remaining, granted) := state
  if remaining = 0 then state
  else
    let c := (s.rr + k) % kSmemClients
    let g := min (s.exposed c) remaining
    (remaining - g, Function.update granted c g)

def cycle (s : SharedMemoryService) : SharedMemoryService :=
  let remaining := if s.budget = 0 then 2 ^ 32 - 1 else s.budget
  { s with
    rr := (s.rr + 1) % kSmemClients
    granted := ((List.range kSmemClients).foldl s.cycleClient (remaining, fun _ => 0)).2
    exposed := fun _ => 0 }

/-- A client that did not get all it asked for has used up its grant. -/
theorem granted_take_of_short {s : SharedMemoryService} {client bytes : Nat}
    (hclient : client < kSmemClients) (h : (s.take client bytes).1 < bytes) :
    (s.take client bytes).2.granted client = 0 := by
  simp only [take, grant, if_pos hclient, Function.update_self] at h ⊢
  omega

/-- Without a grant nothing is handed out. -/
theorem take_of_granted_zero {s : SharedMemoryService} {client : Nat} (bytes : Nat)
    (h : s.granted client = 0) :
    (s.take client bytes).1 = 0 ∧ (s.take client bytes).2.granted client = 0 := by
  simp [take, grant, h]

@[simp] theorem expose_granted (s : SharedMemoryService) (client bytes : Nat) :
    (s.expose client bytes).granted = s.granted := rfl

end SharedMemoryService

end FlashGpuSim
