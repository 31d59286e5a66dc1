import FlashGpuSim.Lib.Outcome

/-!
`memory_transport_service_budget`: the service slots of one tick, and the credit that a packet
larger than the width of a tick carries into the next one. The statistics of `end_tick` are left
out.
-/

namespace FlashGpuSim

open Lib

/-- `UINT_MAX` -/
def uintMax : Nat := 2 ^ 32 - 1

/-- `memory_transport_service_slots` -/
def memoryTransportServiceSlots (dataSectors : Nat) : Nat := max 1 dataSectors

inductive BudgetFailure
  /-- `assert(explicit_width())` -/
  | explicitWidth
  /-- `assert(slots <= m_available)` -/
  | available
  /-- `assert(m_active)` -/
  | active
  deriving DecidableEq, Repr

structure ServiceBudget where
  width : Nat := 0
  available : Nat := 0
  credit : Nat := 0
  reservedCredit : Nat := 0
  creditCap : Nat := 0
  consumed : Nat := 0
  widthLimited : Bool := false
  downstreamFull : Bool := false
  active : Bool := false
  deriving DecidableEq, Repr

/-- What a stage calls between `begin_tick` and `end_tick`. -/
inductive BudgetAction
  | consume (dataSectors : Nat)
  | noteWidthLimited (dataSectors : Nat)
  | noteDownstreamFull
  deriving DecidableEq, Repr

namespace ServiceBudget

variable (b : ServiceBudget)

def beginTick (width : Nat) : ServiceBudget where
  width := width
  reservedCredit := b.credit
  available := if width ≠ 0 then min (width + b.credit) uintMax else 0
  credit := 0
  creditCap := 0
  consumed := 0
  widthLimited := false
  downstreamFull := false
  active := true

def explicitWidth : Bool := decide (b.width ≠ 0)

def canAccept (dataSectors : Nat) : Bool :=
  b.explicitWidth && decide (memoryTransportServiceSlots dataSectors ≤ b.available)

def consume (dataSectors : Nat) : Except BudgetFailure ServiceBudget := do
  let slots := memoryTransportServiceSlots dataSectors
  require b.explicitWidth .explicitWidth
  require (decide (slots ≤ b.available)) .available
  return { b with available := b.available - slots, consumed := b.consumed + slots }

def noteWidthLimited (dataSectors : Nat) : ServiceBudget :=
  let slots := memoryTransportServiceSlots dataSectors
  { b with
    widthLimited := true
    creditCap := if b.width < slots then max b.creditCap (slots - b.width) else b.creditCap }

def noteDownstreamFull : ServiceBudget := { b with downstreamFull := true }

def endTick : Except BudgetFailure ServiceBudget := do
  require b.active .active
  return { b with
    credit := if b.widthLimited && !b.downstreamFull then min b.available b.creditCap else 0
    active := false
    reservedCredit := 0 }

def act : BudgetAction → Except BudgetFailure ServiceBudget
  | .consume dataSectors => b.consume dataSectors
  | .noteWidthLimited dataSectors => .ok (b.noteWidthLimited dataSectors)
  | .noteDownstreamFull => .ok b.noteDownstreamFull

/-- A tick of the given width. -/
def tick (width : Nat) (actions : List BudgetAction) : Except BudgetFailure ServiceBudget := do
  let b ← actions.foldlM act (b.beginTick width)
  b.endTick

/-- The states after each of some ticks of one width. -/
def ticks (width : Nat) :
    ServiceBudget → List (List BudgetAction) → Except BudgetFailure (List ServiceBudget)
  | _, [] => .ok []
  | b, actions :: rest => do
    let b ← b.tick width actions
    let states ← ticks width b rest
    return b :: states

variable {b b' : ServiceBudget} {width dataSectors : Nat} {actions : List BudgetAction}

/-- The slots of a packet beyond the width of a tick. -/
def excess (width : Nat) : BudgetAction → Nat
  | .noteWidthLimited dataSectors => memoryTransportServiceSlots dataSectors - width
  | .consume _ | .noteDownstreamFull => 0

/-- The largest noted excess. -/
def largestExcess (width : Nat) (actions : List BudgetAction) : Nat :=
  (actions.map (excess width)).foldr max 0

/-- A guarded `consume` passes its assertions, and no other does. -/
theorem consume_ok_iff : (∃ b', b.consume dataSectors = .ok b') ↔ b.canAccept dataSectors = true := by
  unfold consume canAccept
  constructor
  · rintro ⟨b', hok⟩
    obtain ⟨_, hwidth, hok⟩ := bind_eq_ok hok
    obtain ⟨_, hslots, -⟩ := bind_eq_ok hok
    rw [require_true hwidth, require_true hslots]
    rfl
  · intro haccept
    rw [Bool.and_eq_true] at haccept
    rw [require_pass haccept.1]
    dsimp only [bind, Except.bind]
    rw [require_pass haccept.2]
    exact ⟨_, rfl⟩

/-- What the calls of a tick do to the fields. -/
structure Acts (actions : List BudgetAction) (b b' : ServiceBudget) : Prop where
  width : b'.width = b.width
  active : b'.active = b.active
  slots : b'.available + b'.consumed = b.available + b.consumed
  cap : b'.creditCap = max b.creditCap (largestExcess b.width actions)
  limited : b'.widthLimited = true ↔
    b.widthLimited = true ∨ ∃ n, .noteWidthLimited n ∈ actions
  full : b'.downstreamFull = true ↔ b.downstreamFull = true ∨ .noteDownstreamFull ∈ actions

theorem act_acts {a : BudgetAction} (hok : b.act a = .ok b') : Acts [a] b b' := by
  cases a with
  | consume n =>
    unfold act consume at hok
    obtain ⟨_, -, hok⟩ := bind_eq_ok hok
    obtain ⟨_, hslots, hok⟩ := bind_eq_ok hok
    cases hok
    have hslots := require_ok hslots
    refine ⟨rfl, rfl, ?_, ?_, ?_, ?_⟩
    · dsimp only
      omega
    · simp [largestExcess, excess]
    · simp
    · simp
  | noteWidthLimited n =>
    cases hok
    refine ⟨rfl, rfl, rfl, ?_, ?_, ?_⟩
    · simp only [noteWidthLimited, largestExcess, excess, List.map_cons, List.map_nil,
        List.foldr_cons, List.foldr_nil]
      split <;> omega
    · simp [noteWidthLimited]
    · simp [noteWidthLimited]
  | noteDownstreamFull =>
    cases hok
    refine ⟨rfl, rfl, rfl, ?_, ?_, ?_⟩
    · simp [noteDownstreamFull, largestExcess, excess]
    · simp [noteDownstreamFull]
    · simp [noteDownstreamFull]

theorem Acts.cons {a : BudgetAction} {c : ServiceBudget} (h : Acts [a] b b')
    (h' : Acts actions b' c) : Acts (a :: actions) b c where
  width := h'.width.trans h.width
  active := h'.active.trans h.active
  slots := h'.slots.trans h.slots
  cap := by
    rw [h'.cap, h.cap, h.width]
    simp only [largestExcess, List.map_cons, List.map_nil, List.foldr_cons, List.foldr_nil]
    omega
  limited := by
    rw [h'.limited, h.limited, or_assoc]
    simp [exists_or]
  full := by
    rw [h'.full, h.full, or_assoc]
    simp

theorem foldlM_acts (hok : actions.foldlM act b = .ok b') : Acts actions b b' := by
  induction actions generalizing b with
  | nil =>
    cases hok
    exact ⟨rfl, rfl, rfl, by simp [largestExcess], by simp, by simp⟩
  | cons a rest ih =>
    rw [List.foldlM_cons] at hok
    obtain ⟨c, hact, hrest⟩ := bind_eq_ok hok
    exact (act_acts hact).cons (ih hrest)

/-- A tick splits the width and the carried credit. -/
structure Ticks (width : Nat) (actions : List BudgetAction) (b b' : ServiceBudget) : Prop where
  rate : b'.consumed + b'.credit ≤ width + b.credit
  excess : b'.credit ≤ largestExcess width actions
  full : .noteDownstreamFull ∈ actions → b'.credit = 0
  unlimited : (∀ n, .noteWidthLimited n ∉ actions) → b'.credit = 0

theorem tick_ticks (hok : b.tick width actions = .ok b') : Ticks width actions b b' := by
  obtain ⟨c, hc, hok⟩ := bind_eq_ok hok
  obtain ⟨_, -, hok⟩ := bind_eq_ok hok
  have hacts := foldlM_acts hc
  have hstart : (b.beginTick width).available ≤ width + b.credit := by
    unfold beginTick
    dsimp only
    split <;> omega
  have hslots := hacts.slots
  have hcap := hacts.cap
  cases hok
  refine ⟨?_, ?_, fun hfull => ?_, fun hnone => ?_⟩
  · simp only [beginTick] at hslots hstart
    dsimp only
    split <;> omega
  · simp only [beginTick, Nat.zero_max] at hcap
    dsimp only
    split <;> omega
  · have hdown : c.downstreamFull = true := hacts.full.mpr (.inr hfull)
    simp [hdown]
  · have hlimited : c.widthLimited = false := by
      rw [← Bool.not_eq_true, hacts.limited]
      rintro (hfalse | ⟨n, hn⟩)
      · cases hfalse
      · exact hnone n hn
    simp [hlimited]

/-- Over any run of ticks the slots are paid for by the widths and the credit at its start. -/
theorem ticks_rate {todo : List (List BudgetAction)} {states : List ServiceBudget}
    (hok : ticks width b todo = .ok states) :
    (states.map consumed).sum + (states.getLast?.getD b).credit ≤
      todo.length * width + b.credit := by
  induction todo generalizing b states with
  | nil =>
    cases hok
    simp
  | cons actions rest ih =>
    obtain ⟨c, hc, hok⟩ := bind_eq_ok hok
    obtain ⟨more, hmore, hok⟩ := bind_eq_ok hok
    cases hok
    have hrest := ih hmore
    have htick := (tick_ticks hc).rate
    have hlast : (c :: more).getLast?.getD b = more.getLast?.getD c := by
      cases more <;> simp [List.getLast?_cons]
    rw [hlast, List.map_cons, List.sum_cons, List.length_cons, Nat.succ_mul]
    omega

theorem ticks_credit {todo : List (List BudgetAction)} {states : List ServiceBudget}
    (hok : ticks width b todo = .ok states) :
    List.Forall₂ (fun actions c => c.credit ≤ largestExcess width actions ∧
      (.noteDownstreamFull ∈ actions ∨ (∀ n, .noteWidthLimited n ∉ actions) → c.credit = 0))
      todo states := by
  induction todo generalizing b states with
  | nil =>
    cases hok
    exact .nil
  | cons actions rest ih =>
    obtain ⟨c, hc, hok⟩ := bind_eq_ok hok
    obtain ⟨more, hmore, hok⟩ := bind_eq_ok hok
    cases hok
    have htick := tick_ticks hc
    exact .cons ⟨htick.excess, fun h => h.elim htick.full htick.unlimited⟩ (ih hmore)

/-- The packet does not fit into the tick and is noted. Nothing is consumed, and nothing
downstream is full. -/
structure Waits (width dataSectors : Nat) (b : ServiceBudget) (actions : List BudgetAction) :
    Prop where
  short : (b.beginTick width).canAccept dataSectors = false
  noted : .noteWidthLimited dataSectors ∈ actions
  alone : ∀ a ∈ actions, ∃ n, a = .noteWidthLimited n

/-- Each tick accepts the packet or notes it, until one has accepted it. -/
def EachOffers (width dataSectors : Nat) : ServiceBudget → List (List BudgetAction) → Prop
  | _, [] => True
  | b, actions :: rest => .consume dataSectors ∈ actions ∨
      (Waits width dataSectors b actions ∧
        ∀ b', b.tick width actions = .ok b' → EachOffers width dataSectors b' rest)

theorem le_foldr_max {n : Nat} {l : List Nat} (h : n ∈ l) : n ≤ l.foldr max 0 := by
  induction l with
  | nil => cases h
  | cons a l ih =>
    rw [List.foldr_cons]
    rcases List.mem_cons.mp h with rfl | h
    · exact Nat.le_max_left _ _
    · exact Nat.le_trans (ih h) (Nat.le_max_right _ _)

/-- Calls that only note packets stop at no assertion. -/
theorem foldlM_notes (h : ∀ a ∈ actions, ∃ n, a = .noteWidthLimited n) :
    ∃ b', actions.foldlM act b = .ok b' ∧ b'.available = b.available := by
  induction actions generalizing b with
  | nil => exact ⟨b, rfl, rfl⟩
  | cons a rest ih =>
    obtain ⟨n, rfl⟩ := h a List.mem_cons_self
    obtain ⟨b', hb', havailable⟩ :=
      ih (b := b.noteWidthLimited n) fun a ha => h a (List.mem_cons_of_mem _ ha)
    exact ⟨b', hb', havailable⟩

/-- A tick in which the packet waits leaves all its slots as credit, up to what the packet
needs. -/
theorem Waits.tick (h : Waits width dataSectors b actions) (hwidth : 0 < width)
    (hsectors : dataSectors ≤ uintMax) :
    width + b.credit < memoryTransportServiceSlots dataSectors ∧
      ∃ b', b.tick width actions = .ok b' ∧
        min (width + b.credit) (memoryTransportServiceSlots dataSectors - width) ≤ b'.credit := by
  have hslots : memoryTransportServiceSlots dataSectors ≤ uintMax := by
    unfold memoryTransportServiceSlots uintMax at *
    omega
  have hshort : (b.beginTick width).available < memoryTransportServiceSlots dataSectors := by
    have hexplicit : (b.beginTick width).explicitWidth = true :=
      decide_eq_true (Nat.ne_of_gt hwidth)
    have hno := h.short
    unfold canAccept at hno
    rw [hexplicit, Bool.true_and, decide_eq_false_iff_not] at hno
    exact Nat.lt_of_not_le hno
  have hstart : (b.beginTick width).available = width + b.credit := by
    simp only [beginTick] at hshort ⊢
    rw [if_pos (by omega)] at hshort ⊢
    omega
  obtain ⟨c, hc, havailable⟩ := foldlM_notes (b := b.beginTick width) h.alone
  have hacts := foldlM_acts hc
  have hlimited : c.widthLimited = true := hacts.limited.mpr (.inr ⟨_, h.noted⟩)
  have hfull : c.downstreamFull = false := by
    rw [← Bool.not_eq_true, hacts.full]
    rintro (hfalse | hin)
    · cases hfalse
    · obtain ⟨n, hn⟩ := h.alone _ hin
      cases hn
  have hcap : memoryTransportServiceSlots dataSectors - width ≤ c.creditCap := by
    rw [hacts.cap]
    apply Nat.le_trans _ (Nat.le_max_right _ _)
    exact le_foldr_max (List.mem_map.mpr ⟨_, h.noted, rfl⟩)
  have hend : b.tick width actions = .ok { c with
      credit := min c.available c.creditCap, active := false, reservedCredit := 0 } := by
    have hactive : c.active = true := hacts.active
    unfold ServiceBudget.tick
    rw [hc]
    dsimp only [bind, Except.bind]
    unfold endTick
    rw [require_pass hactive, hlimited, hfull]
    rfl
  refine ⟨by omega, _, hend, ?_⟩
  dsimp only
  omega

/-- `ceil(slots / width)` -/
def ticksFor (width dataSectors : Nat) : Nat :=
  (memoryTransportServiceSlots dataSectors + width - 1) / width

theorem lt_ticksFor (dataSectors : Nat) {k : Nat} (hwidth : 0 < width) :
    k < ticksFor width dataSectors ↔ k * width < memoryTransportServiceSlots dataSectors := by
  unfold ticksFor
  rw [← Nat.succ_le_iff, Nat.le_div_iff_mul_le hwidth, Nat.succ_mul]
  omega

/-- After `k` ticks of waiting the packet is accepted in time. -/
theorem EachOffers.accepted {todo : List (List BudgetAction)} (hwidth : 0 < width)
    (hsectors : dataSectors ≤ uintMax) {k : Nat}
    (h : EachOffers width dataSectors b todo)
    (hcredit : min (k * width) (memoryTransportServiceSlots dataSectors - width) ≤ b.credit)
    (hk : k * width < memoryTransportServiceSlots dataSectors)
    (hlong : ticksFor width dataSectors ≤ k + todo.length) :
    ∃ i, k + i < ticksFor width dataSectors ∧
      ∃ actions, todo[i]? = some actions ∧ .consume dataSectors ∈ actions := by
  induction todo generalizing b k with
  | nil =>
    have hlt := (lt_ticksFor dataSectors hwidth).mpr hk
    rw [List.length_nil] at hlong
    omega
  | cons actions rest ih =>
    rcases h with haccept | ⟨hwaits, hrest⟩
    · exact ⟨0, (lt_ticksFor _ hwidth).mpr hk, actions, rfl, haccept⟩
    · obtain ⟨hshort, b', hok, hnext⟩ := hwaits.tick hwidth hsectors
      have hmul : (k + 1) * width = k * width + width := Nat.succ_mul k width
      obtain ⟨i, hi, found, hfound, haccept⟩ := ih (k := k + 1) (hrest b' hok) (by omega)
        (by omega) (by rw [List.length_cons] at hlong; omega)
      exact ⟨i + 1, by omega, found, hfound, haccept⟩

end ServiceBudget

end FlashGpuSim
