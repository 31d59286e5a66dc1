import FlashGpuSim.Lib.Outcome

/-!
`outstanding_sector_coalescer` of `l2cache.h`: the reads of a sector that gather behind a
master whose response is outstanding. A closed address takes no further reads, while the
waiters of its master stay.
-/

namespace FlashGpuSim

open Lib

universe u v

inductive L2Failure where
  | noGroup
  | groupExists
  | activeExists
  | notOpened
  | responseWaitersExist
  | emptyResponseWaiters
  | responseQueueFull
  | queueOverflow
  | queueEmpty
  | noRequest
  | noSectors
  | sectorChildren
  | ropWidth
  deriving DecidableEq, Repr

structure CoalescerGroup (T : Type u) (A : Type v) where
  address : A
  waiters : List T

/-- Maps of the code are functions here. -/
structure SectorCoalescer (T : Type u) (A : Type v) where
  activeMaster : A → Option T
  groups : T → Option (CoalescerGroup T A)

namespace SectorCoalescer

variable {T : Type u} {A : Type v} [DecidableEq T] [DecidableEq A]

def empty : SectorCoalescer T A := ⟨fun _ => none, fun _ => none⟩

variable (c : SectorCoalescer T A)

/-- `push_back` on the waiters of a master's group -/
def addWaiter (master : T) (g : CoalescerGroup T A) (item : T) : SectorCoalescer T A :=
  { c with
    groups := Function.update c.groups master (some { g with waiters := g.waiters ++ [item] }) }

/-- The read joins the master of its address, if there is one; the result is the new number
of waiters. -/
def admitWaiter (address : A) (item : T) :
    Except L2Failure (Option (SectorCoalescer T A × Nat)) :=
  match c.activeMaster address with
  | none => .ok none
  | some master =>
    match c.groups master with
    | none => .error .noGroup
    | some g => .ok (some (c.addWaiter master g item, (g.waiters ++ [item]).length))

/-- The read becomes the master of its address, unless there is one that it can join. -/
def admitItem (address : A) (item : T) : Except L2Failure (SectorCoalescer T A × Bool × Nat) := do
  match ← c.admitWaiter address item with
  | some (c, waiterCount) => pure (c, false, waiterCount)
  | none => do
    require (c.groups item).isNone .groupExists
    require (c.activeMaster address).isNone .activeExists
    let c' : SectorCoalescer T A :=
      { activeMaster := Function.update c.activeMaster address (some item)
        groups := Function.update c.groups item (some ⟨address, []⟩) }
    pure (c', true, 0)

def closeAddress (address : A) : SectorCoalescer T A :=
  { c with activeMaster := Function.update c.activeMaster address none }

/-- The waiters of a master leave with it. -/
def closeMaster (master : T) : Option (SectorCoalescer T A × List T) :=
  match c.groups master with
  | none => none
  | some g =>
    some
      ({ activeMaster :=
          if c.activeMaster g.address = some master then
            Function.update c.activeMaster g.address none
          else c.activeMaster
         groups := Function.update c.groups master none },
        g.waiters)

variable {c} {address : A} {item master : T}

theorem addWaiter_self (c : SectorCoalescer T A) (master : T) (g : CoalescerGroup T A) (item : T) :
    (c.addWaiter master g item).groups master = some { g with waiters := g.waiters ++ [item] } :=
  Function.update_self _ _ _

theorem addWaiter_other {m : T} (hm : m ≠ master) (g : CoalescerGroup T A) (item : T) :
    (c.addWaiter master g item).groups m = c.groups m :=
  Function.update_of_ne hm _ _

theorem admitWaiter_none (h : c.activeMaster address = none) :
    c.admitWaiter address item = .ok none := by
  unfold admitWaiter
  rw [h]

theorem admitWaiter_some {g : CoalescerGroup T A} (h : c.activeMaster address = some master)
    (hg : c.groups master = some g) :
    c.admitWaiter address item =
      .ok (some (c.addWaiter master g item, (g.waiters ++ [item]).length)) := by
  unfold admitWaiter
  rw [h]
  dsimp only
  rw [hg]

theorem admit_new (h : c.activeMaster address = none) (hitem : c.groups item = none) :
    c.admitItem address item = .ok
      ({ activeMaster := Function.update c.activeMaster address (some item)
         groups := Function.update c.groups item (some ⟨address, []⟩) }, true, 0) := by
  unfold admitItem
  rw [admitWaiter_none h]
  dsimp only [bind, Except.bind]
  rw [h, hitem]
  rfl

theorem closeAddress_some {a : A} {m : T} (h : (c.closeAddress address).activeMaster a = some m) :
    a ≠ address ∧ c.activeMaster a = some m := by
  unfold closeAddress at h
  dsimp only at h
  rcases eq_or_ne a address with rfl | hne
  · rw [Function.update_self] at h
    cases h
  · rw [Function.update_of_ne hne] at h
    exact ⟨hne, h⟩

theorem closeMaster_none (h : c.groups master = none) : c.closeMaster master = none := by
  unfold closeMaster
  rw [h]

/-- A closed master is active nowhere, and the other masters stay as they were. -/
theorem closeMaster_some {g : CoalescerGroup T A} {c' : SectorCoalescer T A} {waiters : List T}
    (hg : c.groups master = some g) (h : c.closeMaster master = some (c', waiters)) :
    waiters = g.waiters ∧ c'.groups = Function.update c.groups master none ∧
      (∀ a m, c'.activeMaster a = some m → c.activeMaster a = some m) ∧
      (∀ a m, m ≠ master → c.activeMaster a = some m → c'.activeMaster a = some m) ∧
      c'.activeMaster g.address ≠ some master := by
  unfold closeMaster at h
  rw [hg] at h
  cases h
  refine ⟨rfl, rfl, ?_⟩
  dsimp only
  split
  · rename_i hactive
    refine ⟨?_, ?_, ?_⟩
    · intro a m ha
      rcases eq_or_ne a g.address with rfl | hne
      · rw [Function.update_self] at ha
        cases ha
      · rwa [Function.update_of_ne hne] at ha
    · intro a m hm ha
      have hne : a ≠ g.address := by
        rintro rfl
        rw [hactive] at ha
        cases ha
        exact hm rfl
      rwa [Function.update_of_ne hne]
    · rw [Function.update_self]
      exact nofun
  · rename_i hactive
    exact ⟨fun _ _ => id, fun _ _ _ => id, hactive⟩

end SectorCoalescer

end FlashGpuSim
