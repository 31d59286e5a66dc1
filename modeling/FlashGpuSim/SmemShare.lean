import FlashGpuSim.SmemService
import Mathlib.Tactic

/-!
What the clients of one SM's shared memory get of it: in a cycle no more than the budget and no
more than they asked for in the cycle before, and each comes first in one of three cycles.
-/

namespace FlashGpuSim

namespace SharedMemoryService

variable {s : SharedMemoryService} {client bytes k : Nat}

/-- The bytes that one `cycle` can hand out. -/
def limit (s : SharedMemoryService) : Nat := if s.budget = 0 then 2 ^ 32 - 1 else s.budget

theorem exposed_expose_self (s : SharedMemoryService) (bytes : Nat) (h : client < kSmemClients) :
    (s.expose client bytes).exposed client = (s.exposed client + bytes) % 2 ^ 32 := by
  simp [expose, h]

theorem exposed_expose_of_ne (s : SharedMemoryService) (bytes : Nat) {c : Nat} (h : c ≠ client) :
    (s.expose client bytes).exposed c = s.exposed c := by
  unfold expose
  dsimp only
  split
  · exact Function.update_of_ne h _ _
  · rfl

/-- The client at a place of the round. -/
def place (s : SharedMemoryService) (k : Nat) : Nat := (s.rr + k) % kSmemClients

theorem place_ne {j : Nat} (hj : j < kSmemClients) (hk : k < kSmemClients) (hne : j ≠ k) :
    s.place j ≠ s.place k := by
  unfold place kSmemClients at *
  omega

/-- A client's turn hands it what remains, up to what it asked for. -/
theorem cycleClient_eq (s : SharedMemoryService) {remaining : Nat} {granted : Nat → Nat}
    (hnone : granted (s.place k) = 0) : s.cycleClient (remaining, granted) k =
      (remaining - min (s.exposed (s.place k)) remaining,
        Function.update granted (s.place k) (min (s.exposed (s.place k)) remaining)) := by
  unfold cycleClient
  dsimp only
  split
  · rename_i hzero
    rw [hzero, Nat.min_zero, Nat.sub_zero, ← hnone, Function.update_eq_self]
  · rfl

/-- The three turns of a round. -/
theorem granted_cycle (s : SharedMemoryService) : ∃ g₀ g₁ g₂, s.cycle.granted =
    Function.update (Function.update (Function.update (fun _ => 0) (s.place 0) g₀)
      (s.place 1) g₁) (s.place 2) g₂ ∧
        g₀ = min (s.exposed (s.place 0)) s.limit ∧
        g₁ = min (s.exposed (s.place 1)) (s.limit - g₀) ∧
        g₂ = min (s.exposed (s.place 2)) (s.limit - g₀ - g₁) := by
  have h01 : s.place 1 ≠ s.place 0 := place_ne (by decide) (by decide) (by decide)
  have h02 : s.place 2 ≠ s.place 0 := place_ne (by decide) (by decide) (by decide)
  have h12 : s.place 2 ≠ s.place 1 := place_ne (by decide) (by decide) (by decide)
  refine ⟨_, _, _, ?_, rfl, rfl, rfl⟩
  show (s.cycleClient (s.cycleClient (s.cycleClient (s.limit, fun _ => 0) 0) 1) 2).2 = _
  have hfirst := @cycleClient_eq 0 s s.limit (fun _ => 0) rfl
  rw [hfirst]
  generalize min (s.exposed (s.place 0)) s.limit = g₀
  have hsecond := @cycleClient_eq 1 s (s.limit - g₀) (Function.update (fun _ => 0) (s.place 0) g₀)
    (Function.update_of_ne h01 _ _)
  rw [hsecond]
  generalize min (s.exposed (s.place 1)) (s.limit - g₀) = g₁
  have hthird := @cycleClient_eq 2 s (s.limit - g₀ - g₁)
    (Function.update (Function.update (fun _ => 0) (s.place 0) g₀) (s.place 1) g₁)
    ((Function.update_of_ne h12 _ _).trans (Function.update_of_ne h02 _ _))
  rw [hthird]

theorem granted_first (s : SharedMemoryService) :
    s.cycle.granted (s.place 0) = min (s.exposed (s.place 0)) s.limit := by
  obtain ⟨g₀, g₁, g₂, hgranted, hg₀, -, -⟩ := granted_cycle s
  rw [hgranted, Function.update_of_ne (place_ne (by decide) (by decide) (by decide)),
    Function.update_of_ne (place_ne (by decide) (by decide) (by decide)), Function.update_self, hg₀]

/-- What is handed out is at most what was asked for. -/
theorem granted_le (s : SharedMemoryService) (client : Nat) :
    s.cycle.granted client ≤ s.exposed client := by
  obtain ⟨g₀, g₁, g₂, hgranted, hg₀, hg₁, hg₂⟩ := granted_cycle s
  rw [hgranted]
  rcases eq_or_ne client (s.place 2) with rfl | h2
  · rw [Function.update_self, hg₂]
    exact Nat.min_le_left _ _
  · rw [Function.update_of_ne h2]
    rcases eq_or_ne client (s.place 1) with rfl | h1
    · rw [Function.update_self, hg₁]
      exact Nat.min_le_left _ _
    · rw [Function.update_of_ne h1]
      rcases eq_or_ne client (s.place 0) with rfl | h0
      · rw [Function.update_self, hg₀]
        exact Nat.min_le_left _ _
      · rw [Function.update_of_ne h0]
        exact Nat.zero_le _

theorem limit_pos (s : SharedMemoryService) : 0 < s.limit := by
  unfold limit
  split <;> omega

/-- A client that is alone to ask gets what it asked for, up to the budget. -/
theorem granted_alone (hclient : client < kSmemClients)
    (halone : ∀ c, c ≠ client → s.exposed c = 0) :
    s.cycle.granted client = min (s.exposed client) s.limit := by
  obtain ⟨g₀, g₁, g₂, hgranted, hg₀, hg₁, hg₂⟩ := granted_cycle s
  have h01 : s.place 0 ≠ s.place 1 := place_ne (by decide) (by decide) (by decide)
  have h02 : s.place 0 ≠ s.place 2 := place_ne (by decide) (by decide) (by decide)
  have h12 : s.place 1 ≠ s.place 2 := place_ne (by decide) (by decide) (by decide)
  have hplace : s.place 0 = client ∨ s.place 1 = client ∨ s.place 2 = client := by
    unfold place kSmemClients at *
    omega
  rw [hgranted]
  rcases hplace with rfl | rfl | rfl
  · rw [Function.update_of_ne h02, Function.update_of_ne h01, Function.update_self, hg₀]
  · rw [Function.update_of_ne h12, Function.update_self, hg₁, hg₀, halone _ h01]
    simp
  · rw [Function.update_self, hg₂, hg₁, hg₀, halone _ h02, halone _ h12]
    simp

theorem sum_three (f : Nat → Nat) (s : SharedMemoryService) :
    f (s.place 0) + f (s.place 1) + f (s.place 2) = f 0 + f 1 + f 2 := by
  have hcases : s.rr % 3 = 0 ∨ s.rr % 3 = 1 ∨ s.rr % 3 = 2 := by omega
  unfold place kSmemClients
  rcases hcases with h | h | h
  · rw [show (s.rr + 0) % 3 = 0 by omega, show (s.rr + 1) % 3 = 1 by omega,
      show (s.rr + 2) % 3 = 2 by omega]
  · rw [show (s.rr + 0) % 3 = 1 by omega, show (s.rr + 1) % 3 = 2 by omega,
      show (s.rr + 2) % 3 = 0 by omega]
    omega
  · rw [show (s.rr + 0) % 3 = 2 by omega, show (s.rr + 1) % 3 = 0 by omega,
      show (s.rr + 2) % 3 = 1 by omega]
    omega

/-- A round hands out no more than the budget. -/
theorem granted_sum_le (s : SharedMemoryService) :
    s.cycle.granted 0 + s.cycle.granted 1 + s.cycle.granted 2 ≤ s.limit := by
  obtain ⟨g₀, g₁, g₂, hgranted, hg₀, hg₁, hg₂⟩ := granted_cycle s
  have h01 : s.place 0 ≠ s.place 1 := place_ne (by decide) (by decide) (by decide)
  have h02 : s.place 0 ≠ s.place 2 := place_ne (by decide) (by decide) (by decide)
  have h12 : s.place 1 ≠ s.place 2 := place_ne (by decide) (by decide) (by decide)
  have hsum := sum_three s.cycle.granted s
  rw [hgranted] at hsum ⊢
  rw [Function.update_of_ne h02, Function.update_of_ne h01, Function.update_self,
    Function.update_of_ne h12, Function.update_self, Function.update_self] at hsum
  omega

end SharedMemoryService

/-! ### Histories -/

inductive SmemCall
  | expose (client bytes : Nat)
  | take (client bytes : Nat)
  | cycle

/-- The service with what its clients asked for and took, in this cycle and in the one before. -/
structure SmemRun where
  service : SharedMemoryService
  asked : Nat → Nat
  askedBefore : Nat → Nat
  taken : Nat → Nat

namespace SmemRun

def init (budget : Nat) : SmemRun := ⟨{ budget }, fun _ => 0, fun _ => 0, fun _ => 0⟩

def step (r : SmemRun) : SmemCall → SmemRun
  | .expose client bytes =>
    { r with
      service := r.service.expose client bytes
      asked := Function.update r.asked client (r.asked client + bytes) }
  | .take client bytes =>
    let (got, service) := r.service.take client bytes
    { r with service, taken := Function.update r.taken client (r.taken client + got) }
  | .cycle =>
    { service := r.service.cycle
      asked := fun _ => 0
      askedBefore := r.asked
      taken := fun _ => 0 }

def run (r : SmemRun) (calls : List SmemCall) : SmemRun := calls.foldl step r

/-- In this cycle no more is taken than the budget, nor than was asked for in the one before. -/
structure Shared (r : SmemRun) : Prop where
  budget : r.service.budget ≠ 0 → r.taken 0 + r.taken 1 + r.taken 2 ≤ r.service.budget
  asked : ∀ client, r.taken client ≤ r.askedBefore client

/-- What was taken and what may still be taken. -/
structure Sound (r : SmemRun) : Prop where
  asked : ∀ client < kSmemClients, r.service.exposed client = r.asked client % 2 ^ 32
  held : ∀ client, r.taken client + r.service.granted client ≤ r.askedBefore client
  limit : r.taken 0 + r.taken 1 + r.taken 2 + (r.service.granted 0 + r.service.granted 1 +
    r.service.granted 2) ≤ r.service.limit
  outside : ∀ client, kSmemClients ≤ client → r.service.exposed client = 0

theorem sound_init (budget : Nat) : (init budget).Sound where
  asked _ _ := rfl
  held _ := le_rfl
  limit := Nat.zero_le _
  outside _ _ := rfl

theorem Sound.shared {r : SmemRun} (h : r.Sound) : r.Shared where
  budget hne := by
    have hlimit := h.limit
    rw [SharedMemoryService.limit, if_neg hne] at hlimit
    omega
  asked client := (Nat.le_add_right _ _).trans (h.held client)

/-- What is taken is no longer granted. -/
theorem taken_add_granted (r : SmemRun) (client bytes c : Nat) :
    (r.step (.take client bytes)).taken c + (r.step (.take client bytes)).service.granted c =
      r.taken c + r.service.granted c := by
  have hgot : r.service.grant client bytes ≤ r.service.granted client := by
    unfold SharedMemoryService.grant
    split
    · exact Nat.min_le_right _ _
    · exact Nat.zero_le _
  show Function.update r.taken client (r.taken client + r.service.grant client bytes) c +
    Function.update r.service.granted client
      (r.service.granted client - r.service.grant client bytes) c = _
  rcases eq_or_ne c client with rfl | hne
  · rw [Function.update_self, Function.update_self]
    omega
  · rw [Function.update_of_ne hne, Function.update_of_ne hne]

theorem Sound.step {r : SmemRun} (h : r.Sound) (call : SmemCall) : (r.step call).Sound := by
  cases call with
  | expose client bytes =>
    refine ⟨fun c hc => ?_, h.held, h.limit, fun c hc => ?_⟩
    · show (r.service.expose client bytes).exposed c =
        Function.update r.asked client (r.asked client + bytes) c % 2 ^ 32
      rcases eq_or_ne c client with rfl | hne
      · rw [SharedMemoryService.exposed_expose_self _ _ hc, Function.update_self, h.asked c hc]
        omega
      · rw [SharedMemoryService.exposed_expose_of_ne _ _ hne, Function.update_of_ne hne,
          h.asked c hc]
    · show (r.service.expose client bytes).exposed c = 0
      rcases eq_or_ne c client with rfl | hne
      · unfold SharedMemoryService.expose
        dsimp only
        rw [if_neg (by omega)]
        exact h.outside c hc
      · rw [SharedMemoryService.exposed_expose_of_ne _ _ hne]
        exact h.outside c hc
  | take client bytes =>
    have hsame := taken_add_granted r client bytes
    refine ⟨h.asked, fun c => (hsame c).trans_le (h.held c), ?_, h.outside⟩
    have hlimit := h.limit
    have h0 := hsame 0
    have h1 := hsame 1
    have h2 := hsame 2
    show _ ≤ r.service.limit
    omega
  | cycle =>
    refine ⟨fun _ _ => rfl, fun c => ?_, ?_, fun _ _ => rfl⟩
    · show 0 + r.service.cycle.granted c ≤ r.asked c
      have hle := SharedMemoryService.granted_le r.service c
      rcases lt_or_ge c kSmemClients with hc | hc
      · have hmod := Nat.mod_le (r.asked c) (2 ^ 32)
        rw [h.asked c hc] at hle
        omega
      · rw [h.outside c hc] at hle
        omega
    · have hsum := SharedMemoryService.granted_sum_le r.service
      show 0 + 0 + 0 + (r.service.cycle.granted 0 + r.service.cycle.granted 1 +
        r.service.cycle.granted 2) ≤ r.service.limit
      omega

theorem Sound.run {r : SmemRun} (h : r.Sound) (calls : List SmemCall) : (r.run calls).Sound := by
  induction calls generalizing r with
  | nil => exact h
  | cons call calls ih => exact ih (h.step call)

/-! ### Three cycles -/

/-- Calls within one cycle. -/
def Within (calls : List SmemCall) : Prop := SmemCall.cycle ∉ calls

theorem run_rr {r : SmemRun} {calls : List SmemCall} (h : Within calls) :
    (r.run calls).service.rr = r.service.rr ∧
      (r.run calls).service.budget = r.service.budget := by
  induction calls generalizing r with
  | nil => exact ⟨rfl, rfl⟩
  | cons call calls ih =>
    obtain ⟨hrr, hbudget⟩ := ih (r := r.step call) fun hin => h (List.mem_cons_of_mem _ hin)
    cases call with
    | expose client bytes => exact ⟨hrr, hbudget⟩
    | take client bytes => exact ⟨hrr, hbudget⟩
    | cycle => exact absurd List.mem_cons_self h

/-- The client that is first in its round is granted what it asked for, up to the budget. -/
theorem Sound.first {r : SmemRun} (h : r.Sound) {client b : Nat} (hc : client < kSmemClients)
    (hfirst : r.service.place 0 = client) (hb : r.asked client = b) (hlt : b < 2 ^ 32) :
    (r.step .cycle).service.granted client = min b r.service.limit := by
  show r.service.cycle.granted client = _
  have hgranted := SharedMemoryService.granted_first r.service
  rw [hfirst, h.asked client hc, hb, Nat.mod_eq_of_lt hlt] at hgranted
  exact hgranted

/-- Of three cycles in which a client asks for `b` bytes, one grants it as much of them as the
budget has. -/
def GrantsInThree (r : SmemRun) : Prop :=
  ∀ client < kSmemClients, ∀ b < 2 ^ 32, ∀ calls₁ calls₂, Within calls₁ → Within calls₂ →
    r.asked client = b →
    ((r.step .cycle).run calls₁).asked client = b →
    ((((r.step .cycle).run calls₁).step .cycle).run calls₂).asked client = b →
    ∃ r' ∈ [r, (r.step .cycle).run calls₁, (((r.step .cycle).run calls₁).step .cycle).run calls₂],
      (r'.step .cycle).service.granted client = min b r.service.limit

theorem Sound.grantsInThree {r : SmemRun} (h : r.Sound) : r.GrantsInThree := by
  intro client hc b hlt calls₁ calls₂ h₁ h₂ hb₀ hb₁ hb₂
  have hs₁ := (h.step .cycle).run calls₁
  have hs₂ := (hs₁.step .cycle).run calls₂
  obtain ⟨hrr₁, hbudget₁⟩ := run_rr (r := r.step .cycle) h₁
  obtain ⟨hrr₂, hbudget₂⟩ := run_rr (r := ((r.step .cycle).run calls₁).step .cycle) h₂
  generalize (r.step .cycle).run calls₁ = r₁ at *
  generalize (r₁.step .cycle).run calls₂ = r₂ at *
  have hlimit₁ : r₁.service.limit = r.service.limit := by
    unfold SharedMemoryService.limit
    rw [hbudget₁]
    rfl
  have hlimit₂ : r₂.service.limit = r.service.limit := by
    rw [← hlimit₁]
    unfold SharedMemoryService.limit
    rw [hbudget₂]
    rfl
  have hnext : r₁.service.rr = (r.service.rr + 1) % kSmemClients := hrr₁
  have hnext' : r₂.service.rr = (r₁.service.rr + 1) % kSmemClients := hrr₂
  have hturn : r.service.place 0 = client ∨ r₁.service.place 0 = client ∨
      r₂.service.place 0 = client := by
    unfold SharedMemoryService.place kSmemClients at *
    omega
  rcases hturn with hfirst | hfirst | hfirst
  · exact ⟨r, by simp, h.first hc hfirst hb₀ hlt⟩
  · exact ⟨r₁, by simp, hlimit₁ ▸ hs₁.first hc hfirst hb₁ hlt⟩
  · exact ⟨r₂, by simp, hlimit₂ ▸ hs₂.first hc hfirst hb₂ hlt⟩

end SmemRun

end FlashGpuSim
