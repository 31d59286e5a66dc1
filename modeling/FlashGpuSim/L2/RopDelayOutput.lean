import Mathlib.Data.List.Sort
import Mathlib.Data.Prod.Lex
import Mathlib.Order.BooleanAlgebra.Basic
import FlashGpuSim.Lib.Reach

/-!
`rop_delay_output_queue` of `l2cache.h`: two priority queues that are served as one line, in
the order of ready cycle, local before remote and push. A call removes a first part of that
line, and what stays keeps its place.
-/

namespace FlashGpuSim

open Lib

/-- `entry` -/
structure DelayEntry (α : Type) where
  readyCycle : Nat
  sequence : Nat
  item : α
  deriving DecidableEq, Repr

/-- `rop_delay_output_queue`: each priority queue is the list of its entries in the order in
which they are at the top. -/
structure RopDelayOutputQueue (α : Type) where
  localQueue : List (DelayEntry α)
  remoteQueue : List (DelayEntry α)
  nextSequence : Nat
  deriving DecidableEq, Repr

/-- `rop_delay_output_stop_reason` -/
inductive RopStopReason
  | noReadyWork
  | widthLimited
  | downstreamFull
  deriving DecidableEq, Repr

/-- `rop_delay_output_service_result` -/
structure RopServiceResult where
  reason : RopStopReason := .noReadyWork
  acceptedItems : Nat := 0
  acceptedSectors : Nat := 0
  bypassedItems : Nat := 0
  deriving DecidableEq, Repr

inductive RopFault
  /-- `assert(width > 0)` -/
  | width
  /-- `assert(sectors > 0)` -/
  | noSectors
  /-- `assert(sectors == 1)` of a width above one -/
  | sectorChildren
  deriving DecidableEq, Repr

/-- The callbacks of `service`. They may change what is downstream; `bypass` says how when it
answers true. -/
structure RopCallbacks (α : Type) (σ : Type) where
  sectorCount : α → Nat
  bypass : α → σ → Option σ
  downstreamFull : σ → Bool
  accept : α → σ → σ

/-- An entry that left, from which queue, and whether it was bypassed or accepted. -/
structure RopLeaving (α : Type) where
  remote : Bool
  entry : DelayEntry α
  bypassed : Bool
  deriving DecidableEq, Repr

/-- The place in the line of an entry that left. -/
def RopLeaving.inLine {α : Type} (x : RopLeaving α) : Bool × DelayEntry α := (x.remote, x.entry)

/-- The variables of the loop of `service` and the entries removed so far. -/
structure RopService (α : Type) (σ : Type) where
  result : RopServiceResult
  queue : RopDelayOutputQueue α
  downstream : σ
  removed : List (RopLeaving α)

/-- `earlier` -/
def DelayEntry.earlier {α : Type} (lhs rhs : DelayEntry α) : Prop :=
  if lhs.readyCycle ≠ rhs.readyCycle then lhs.readyCycle < rhs.readyCycle
  else lhs.sequence < rhs.sequence

instance {α : Type} : DecidableRel (DelayEntry.earlier (α := α)) := fun lhs rhs =>
  inferInstanceAs (Decidable (if lhs.readyCycle ≠ rhs.readyCycle then
    lhs.readyCycle < rhs.readyCycle else lhs.sequence < rhs.sequence))

namespace RopDelayOutputQueue

variable {α : Type} {σ : Type}

def empty : RopDelayOutputQueue α where
  localQueue := []
  remoteQueue := []
  nextSequence := 0

def push (q : RopDelayOutputQueue α) (item : α) (readyCycle : Nat) (remote : Bool) :
    RopDelayOutputQueue α :=
  let value : DelayEntry α := ⟨readyCycle, q.nextSequence, item⟩
  if remote then
    { q with
      remoteQueue := q.remoteQueue.orderedInsert DelayEntry.earlier value
      nextSequence := q.nextSequence + 1 }
  else
    { q with
      localQueue := q.localQueue.orderedInsert DelayEntry.earlier value
      nextSequence := q.nextSequence + 1 }

def size (q : RopDelayOutputQueue α) : Nat := q.localQueue.length + q.remoteQueue.length

def full (q : RopDelayOutputQueue α)
    (incoming downstreamSize downstreamCapacity pipelineCapacity : Nat) : Bool :=
  decide (q.size + downstreamSize + incoming > pipelineCapacity + downstreamCapacity)

/-- `ready` -/
def ready (queue : List (DelayEntry α)) (cycle : Nat) : Bool :=
  match queue with
  | [] => false
  | top :: _ => decide (cycle ≥ top.readyCycle)

/-- `next_ready_queue`, with its top and the queue without it; true stands for remote. -/
def popNextReady (q : RopDelayOutputQueue α) (cycle : Nat) :
    Option (Bool × DelayEntry α × RopDelayOutputQueue α) :=
  match q.localQueue, q.remoteQueue with
  | [], [] => none
  | x :: locals, [] =>
    if cycle ≥ x.readyCycle then some (false, x, { q with localQueue := locals }) else none
  | [], y :: remotes =>
    if cycle ≥ y.readyCycle then some (true, y, { q with remoteQueue := remotes }) else none
  | x :: locals, y :: remotes =>
    if cycle ≥ x.readyCycle then
      if cycle ≥ y.readyCycle then
        if x.readyCycle ≤ y.readyCycle then some (false, x, { q with localQueue := locals })
        else some (true, y, { q with remoteQueue := remotes })
      else some (false, x, { q with localQueue := locals })
    else if cycle ≥ y.readyCycle then some (true, y, { q with remoteQueue := remotes })
    else none

/-- Whether the width stops the loop at a candidate of so many sectors. -/
def widthLimits (width : Nat) (result : RopServiceResult) (sectors : Nat) : Except RopFault Bool := do
  require (decide (sectors > 0)) .noSectors
  if width = 1 then return decide (result.acceptedItems = 1)
  else
    require (decide (sectors = 1)) .sectorChildren
    return decide (result.acceptedSectors + sectors > width)

/-- The loop of `service`. Every turn that does not end it removes an entry. -/
def serviceLoop (cycle width : Nat) (callbacks : RopCallbacks α σ) :
    Nat → RopService α σ → Except RopFault (RopService α σ)
  | 0, s => .ok { s with result := { s.result with reason := .noReadyWork } }
  | turns + 1, s =>
    match s.queue.popNextReady cycle with
    | none => .ok { s with result := { s.result with reason := .noReadyWork } }
    | some (remote, candidate, queue) =>
      match callbacks.bypass candidate.item s.downstream with
      | some downstream =>
        serviceLoop cycle width callbacks turns
          { result := { s.result with bypassedItems := s.result.bypassedItems + 1 }
            queue, downstream, removed := s.removed ++ [⟨remote, candidate, true⟩] }
      | none => do
        let sectors := callbacks.sectorCount candidate.item
        let limited ← widthLimits width s.result sectors
        if limited then
          return { s with result := { s.result with reason := .widthLimited } }
        else if callbacks.downstreamFull s.downstream then
          return { s with result := { s.result with reason := .downstreamFull } }
        else
          serviceLoop cycle width callbacks turns
            { result :=
                { s.result with
                  acceptedItems := s.result.acceptedItems + 1
                  acceptedSectors := s.result.acceptedSectors + sectors }
              queue
              downstream := callbacks.accept candidate.item s.downstream
              removed := s.removed ++ [⟨remote, candidate, false⟩] }

def service (q : RopDelayOutputQueue α) (cycle width : Nat) (callbacks : RopCallbacks α σ)
    (downstream : σ) : Except RopFault (RopService α σ) := do
  require (decide (width > 0)) .width
  serviceLoop cycle width callbacks q.size ⟨{}, q, downstream, []⟩

/-! ### The two queues as one line -/

/-- The place of an entry: by ready cycle, then local before remote, then by push. -/
def place (x : Bool × DelayEntry α) : ℕ ×ₗ Bool ×ₗ ℕ :=
  toLex (x.2.readyCycle, toLex (x.1, x.2.sequence))

/-- The entries of both queues in the order of their places. -/
def line (q : RopDelayOutputQueue α) : List (Bool × DelayEntry α) :=
  (q.localQueue.map (Prod.mk false)).merge (q.remoteQueue.map (Prod.mk true))
    (fun x y => decide (place x ≤ place y))

/-- The queues are in order, and their entries were pushed before the next one. -/
structure Ordered (q : RopDelayOutputQueue α) : Prop where
  locals : q.localQueue.Pairwise DelayEntry.earlier
  remotes : q.remoteQueue.Pairwise DelayEntry.earlier
  fresh : ∀ x ∈ q.localQueue ++ q.remoteQueue, x.sequence < q.nextSequence

theorem place_lt_same (remote : Bool) {x y : DelayEntry α} :
    place (remote, x) < place (remote, y) ↔ x.earlier y := by
  unfold place DelayEntry.earlier
  simp only [Prod.Lex.toLex_lt_toLex, lt_irrefl, true_and, false_or]
  split
  · rename_i hne
    simp [hne]
  · rename_i heq
    rw [not_not] at heq
    simp [heq]

theorem place_le_local_remote {x y : DelayEntry α} :
    place (false, x) ≤ place (true, y) ↔ x.readyCycle ≤ y.readyCycle := by
  unfold place
  simp only [Prod.Lex.toLex_le_toLex, Bool.false_lt_true, true_or, and_true]
  omega

theorem readyCycle_le {x y : Bool × DelayEntry α} (h : place x ≤ place y) :
    x.2.readyCycle ≤ y.2.readyCycle := by
  unfold place at h
  rw [Prod.Lex.toLex_le_toLex] at h
  rcases h with h | ⟨h, -⟩
  · exact h.le
  · exact h.le

theorem line_perm (q : RopDelayOutputQueue α) :
    q.line.Perm (q.localQueue.map (Prod.mk false) ++ q.remoteQueue.map (Prod.mk true)) :=
  List.merge_perm_append _

theorem length_line (q : RopDelayOutputQueue α) : q.line.length = q.size := by
  simp [q.line_perm.length_eq, size]

theorem Ordered.line_pairwise {q : RopDelayOutputQueue α} (h : q.Ordered) :
    q.line.Pairwise (fun x y => place x < place y) := by
  have hle : q.line.Pairwise (fun x y => place x ≤ place y) := by
    have : Std.Total (fun x y : Bool × DelayEntry α => place x ≤ place y) :=
      ⟨fun x y => le_total (place x) (place y)⟩
    have : IsTrans (Bool × DelayEntry α) (fun x y => place x ≤ place y) :=
      ⟨fun x y z => le_trans⟩
    apply List.Pairwise.merge
    · exact List.pairwise_map.mpr (h.locals.imp fun hxy => ((place_lt_same _).mpr hxy).le)
    · exact List.pairwise_map.mpr (h.remotes.imp fun hxy => ((place_lt_same _).mpr hxy).le)
  have hne : q.line.Pairwise (fun x y => place x ≠ place y) := by
    rw [q.line_perm.pairwise_iff (fun hxy => hxy.symm), List.pairwise_append]
    refine ⟨?_, ?_, ?_⟩
    · exact List.pairwise_map.mpr (h.locals.imp fun hxy => ((place_lt_same _).mpr hxy).ne)
    · exact List.pairwise_map.mpr (h.remotes.imp fun hxy => ((place_lt_same _).mpr hxy).ne)
    · intro x hx y hy heq
      obtain ⟨x, -, rfl⟩ := List.mem_map.mp hx
      obtain ⟨y, -, rfl⟩ := List.mem_map.mp hy
      have := congrArg (fun p : ℕ ×ₗ Bool ×ₗ ℕ => (ofLex (ofLex p).2).1) heq
      cases this
  exact (hle.and hne).imp fun hxy => lt_of_le_of_ne hxy.1 hxy.2

/-! ### Push and the next ready entry -/

theorem ordered_empty : (empty : RopDelayOutputQueue α).Ordered :=
  ⟨.nil, .nil, fun _ hx => absurd hx List.not_mem_nil⟩

/-- The entry that a push inserts. -/
def pushed (q : RopDelayOutputQueue α) (item : α) (readyCycle : Nat) (remote : Bool) :
    Bool × DelayEntry α :=
  (remote, ⟨readyCycle, q.nextSequence, item⟩)

theorem pairwise_orderedInsert {l : List (DelayEntry α)} {x : DelayEntry α}
    (h : l.Pairwise DelayEntry.earlier) (hx : ∀ y ∈ l, y.sequence < x.sequence) :
    (l.orderedInsert DelayEntry.earlier x).Pairwise DelayEntry.earlier := by
  induction l with
  | nil => simp
  | cons y rest ih =>
    obtain ⟨hy, hrest⟩ := List.pairwise_cons.mp h
    obtain ⟨hyx, hrx⟩ := List.forall_mem_cons.mp hx
    rw [List.orderedInsert_cons]
    split
    · rename_i hxy
      refine List.pairwise_cons.mpr ⟨?_, h⟩
      intro z hz
      rcases List.mem_cons.mp hz with rfl | hz
      · exact hxy
      · have hyz := hy z hz
        rw [← place_lt_same false] at hxy hyz ⊢
        exact hxy.trans hyz
    · rename_i hxy
      refine List.pairwise_cons.mpr ⟨?_, ih hrest hrx⟩
      intro z hz
      rcases (List.mem_orderedInsert _).mp hz with rfl | hz
      · -- an older entry that is not later than the new one is earlier
        unfold DelayEntry.earlier at hxy ⊢
        split at hxy
        · rw [if_pos (by omega)]
          omega
        · rw [if_neg (by omega)]
          exact hyx
      · exact hy z hz

theorem Ordered.push {q : RopDelayOutputQueue α} (h : q.Ordered) (item : α) (readyCycle : Nat)
    (remote : Bool) : (q.push item readyCycle remote).Ordered := by
  have hfresh : ∀ x ∈ q.localQueue ++ q.remoteQueue, x.sequence < q.nextSequence + 1 :=
    fun x hx => (h.fresh x hx).trans (Nat.lt_succ_self _)
  have hlocals : ∀ y ∈ q.localQueue, y.sequence < q.nextSequence :=
    fun y hy => h.fresh y (List.mem_append_left _ hy)
  have hremotes : ∀ y ∈ q.remoteQueue, y.sequence < q.nextSequence :=
    fun y hy => h.fresh y (List.mem_append_right _ hy)
  cases remote with
  | false =>
    refine ⟨pairwise_orderedInsert h.locals hlocals, h.remotes, fun x hx => ?_⟩
    rcases List.mem_append.mp hx with hx | hx
    · rcases (List.mem_orderedInsert _).mp hx with rfl | hx
      · exact Nat.lt_succ_self _
      · exact hfresh x (List.mem_append_left _ hx)
    · exact hfresh x (List.mem_append_right _ hx)
  | true =>
    refine ⟨h.locals, pairwise_orderedInsert h.remotes hremotes, fun x hx => ?_⟩
    rcases List.mem_append.mp hx with hx | hx
    · exact hfresh x (List.mem_append_left _ hx)
    · rcases (List.mem_orderedInsert _).mp hx with rfl | hx
      · exact Nat.lt_succ_self _
      · exact hfresh x (List.mem_append_right _ hx)

/-- A push adds its entry to the line. -/
theorem line_push_perm (q : RopDelayOutputQueue α) (item : α) (readyCycle : Nat) (remote : Bool) :
    (q.push item readyCycle remote).line.Perm (q.pushed item readyCycle remote :: q.line) := by
  apply (line_perm _).trans
  apply List.Perm.trans _ ((line_perm q).symm.cons _)
  cases remote with
  | false =>
    have hinsert := (List.perm_orderedInsert DelayEntry.earlier
      (⟨readyCycle, q.nextSequence, item⟩ : DelayEntry α) q.localQueue).map (Prod.mk false)
    exact hinsert.append_right _
  | true =>
    have hinsert := (List.perm_orderedInsert DelayEntry.earlier
      (⟨readyCycle, q.nextSequence, item⟩ : DelayEntry α) q.remoteQueue).map (Prod.mk true)
    exact (hinsert.append_left _).trans List.perm_middle

theorem size_push (q : RopDelayOutputQueue α) (item : α) (readyCycle : Nat) (remote : Bool) :
    (q.push item readyCycle remote).size = q.size + 1 := by
  rw [← length_line, (line_push_perm q item readyCycle remote).length_eq, List.length_cons,
    length_line]

/-- The next ready entry is the first of the line. -/
theorem popNextReady_some {q q' : RopDelayOutputQueue α} {cycle : Nat} {remote : Bool}
    {x : DelayEntry α} (h : q.popNextReady cycle = some (remote, x, q')) :
    q.line = (remote, x) :: q'.line ∧ x.readyCycle ≤ cycle ∧
      q'.nextSequence = q.nextSequence ∧ (q.Ordered → q'.Ordered) := by
  obtain ⟨locals, remotes, next⟩ := q
  unfold popNextReady at h
  unfold line
  cases locals with
  | nil =>
    cases remotes with
    | nil => cases h
    | cons y remotes =>
      dsimp only at h
      split at h
      · rename_i hy
        cases h
        refine ⟨by simp, hy, rfl, fun hord => ?_⟩
        exact ⟨.nil, (List.pairwise_cons.mp hord.remotes).2,
          fun z hz => hord.fresh z (List.mem_cons_of_mem _ hz)⟩
      · cases h
  | cons x' locals =>
    cases remotes with
    | nil =>
      dsimp only at h
      split at h
      · rename_i hx
        cases h
        refine ⟨by simp, hx, rfl, fun hord => ?_⟩
        exact ⟨(List.pairwise_cons.mp hord.locals).2, .nil,
          fun z hz => hord.fresh z (List.mem_cons_of_mem _ hz)⟩
      · cases h
    | cons y remotes =>
      dsimp only at h
      have hlocal : ∀ hord : Ordered ⟨x' :: locals, y :: remotes, next⟩,
          Ordered ⟨locals, y :: remotes, next⟩ := fun hord =>
        ⟨(List.pairwise_cons.mp hord.locals).2, hord.remotes,
          fun z hz => hord.fresh z (List.mem_cons_of_mem _ hz)⟩
      have hremote : ∀ hord : Ordered ⟨x' :: locals, y :: remotes, next⟩,
          Ordered ⟨x' :: locals, remotes, next⟩ := fun hord =>
        ⟨hord.locals, (List.pairwise_cons.mp hord.remotes).2, fun z hz => hord.fresh z (by
          rcases List.mem_append.mp hz with hz | hz
          · exact List.mem_append_left _ hz
          · exact List.mem_append_right _ (List.mem_cons_of_mem _ hz))⟩
      simp only [List.map_cons, List.cons_merge_cons, decide_eq_true_eq, place_le_local_remote]
      split at h
      · rename_i hx
        split at h
        · rename_i hy
          split at h
          · rename_i hxy
            cases h
            exact ⟨by rw [if_pos hxy]; rfl, hx, rfl, hlocal⟩
          · rename_i hxy
            cases h
            exact ⟨by rw [if_neg hxy]; rfl, hy, rfl, hremote⟩
        · rename_i hy
          cases h
          exact ⟨by rw [if_pos (by omega)]; rfl, hx, rfl, hlocal⟩
      · rename_i hx
        split at h
        · rename_i hy
          cases h
          exact ⟨by rw [if_neg (by omega)]; rfl, hy, rfl, hremote⟩
        · cases h

/-- Without a next ready entry nothing in the line is ready. -/
theorem popNextReady_none {q : RopDelayOutputQueue α} {cycle : Nat} (hord : q.Ordered)
    (h : q.popNextReady cycle = none) : ∀ x ∈ q.line, cycle < x.2.readyCycle := by
  have hfirst : ∀ x ∈ q.line.head?, cycle < x.2.readyCycle := by
    obtain ⟨locals, remotes, next⟩ := q
    unfold popNextReady at h
    unfold line
    cases locals with
    | nil =>
      cases remotes with
      | nil => simp
      | cons y remotes =>
        dsimp only at h
        split at h
        · cases h
        · rename_i hy
          simpa using hy
    | cons x locals =>
      cases remotes with
      | nil =>
        dsimp only at h
        split at h
        · cases h
        · rename_i hx
          simpa using hx
      | cons y remotes =>
        dsimp only at h
        simp only [List.map_cons, List.cons_merge_cons, decide_eq_true_eq, place_le_local_remote]
        split at h
        · split at h
          · split at h <;> cases h
          · cases h
        · rename_i hx
          split at h
          · cases h
          · rename_i hy
            split
            · simpa using hx
            · simpa using hy
  intro x hx
  have hsorted := hord.line_pairwise
  cases hline : q.line with
  | nil =>
    rw [hline] at hx
    exact absurd hx List.not_mem_nil
  | cons y rest =>
    rw [hline] at hx hsorted hfirst
    have hy : cycle < y.2.readyCycle := hfirst y rfl
    rcases List.mem_cons.mp hx with rfl | hx
    · exact hy
    · exact hy.trans_le (readyCycle_le ((List.pairwise_cons.mp hsorted).1 x hx).le)

/-! ### One service call -/

/-- What one call does: it removes a first part of the line, all of it ready, within the width;
and it stops for want of ready work, at the width or at a full downstream only. -/
structure Serviced (cycle width : Nat) (callbacks : RopCallbacks α σ) (s s' : RopService α σ)
    (out : List (RopLeaving α)) : Prop where
  removed : s'.removed = s.removed ++ out
  line : s.queue.line = out.map RopLeaving.inLine ++ s'.queue.line
  ready : ∀ x ∈ out, x.entry.readyCycle ≤ cycle
  ordered : s'.queue.Ordered
  next : s'.queue.nextSequence = s.queue.nextSequence
  accepted : s'.result.acceptedItems = s.result.acceptedItems + out.countP (fun x => !x.bypassed)
  bypassed : s'.result.bypassedItems = s.result.bypassedItems + out.countP (fun x => x.bypassed)
  noReadyWork : s'.result.reason = .noReadyWork → ∀ x ∈ s'.queue.line, cycle < x.2.readyCycle
  downstreamFull : s'.result.reason = .downstreamFull →
    callbacks.downstreamFull s'.downstream = true

/-- The counts of a call are within its width: one item for a width of one, else sectors. -/
def WithinWidth (width : Nat) (result : RopServiceResult) : Prop :=
  if width = 1 then result.acceptedItems ≤ 1
  else result.acceptedSectors = result.acceptedItems ∧ result.acceptedSectors ≤ width

/-- A call that stops at its width has used all of it. -/
def FillsWidth (width : Nat) (result : RopServiceResult) : Prop :=
  if width = 1 then result.acceptedItems = 1 else result.acceptedSectors = width

variable {cycle width : Nat} {callbacks : RopCallbacks α σ}

theorem widthLimits_ok {result : RopServiceResult} {sectors : Nat} {limited : Bool}
    (h : widthLimits width result sectors = .ok limited) (hwithin : WithinWidth width result) :
    0 < sectors ∧ (limited = true → FillsWidth width result) ∧
      (limited = false → WithinWidth width { result with
        acceptedItems := result.acceptedItems + 1
        acceptedSectors := result.acceptedSectors + sectors }) := by
  unfold widthLimits at h
  obtain ⟨_, hpos, h⟩ := bind_eq_ok h
  refine ⟨of_decide_eq_true (require_true hpos), ?_⟩
  unfold WithinWidth at hwithin ⊢
  unfold FillsWidth
  by_cases hone : width = 1
  · rw [if_pos hone] at h hwithin ⊢
    cases h
    refine ⟨of_decide_eq_true, fun hl => ?_⟩
    · rw [if_pos hone]
      have := of_decide_eq_false hl
      dsimp only
      omega
  · rw [if_neg hone] at h hwithin ⊢
    obtain ⟨_, hchild, h⟩ := bind_eq_ok h
    have hsector : sectors = 1 := of_decide_eq_true (require_true hchild)
    cases h
    refine ⟨fun hl => ?_, fun hl => ?_⟩
    · have := of_decide_eq_true hl
      omega
    · rw [if_neg hone]
      have := of_decide_eq_false hl
      dsimp only
      omega

/-- One more entry at the front of what a call removes. -/
theorem Serviced.cons {s t s' : RopService α σ} {out : List (RopLeaving α)} {x : RopLeaving α}
    (h : Serviced cycle width callbacks t s' out) (hremoved : t.removed = s.removed ++ [x])
    (hline : s.queue.line = x.inLine :: t.queue.line) (hready : x.entry.readyCycle ≤ cycle)
    (hnext : t.queue.nextSequence = s.queue.nextSequence)
    (haccepted : t.result.acceptedItems = s.result.acceptedItems + if x.bypassed then 0 else 1)
    (hbypassed : t.result.bypassedItems = s.result.bypassedItems + if x.bypassed then 1 else 0) :
    Serviced cycle width callbacks s s' (x :: out) where
  removed := by rw [h.removed, hremoved, List.append_assoc, List.singleton_append]
  line := by rw [hline, h.line, List.map_cons, List.cons_append]
  ready := List.forall_mem_cons.mpr ⟨hready, h.ready⟩
  ordered := h.ordered
  next := h.next.trans hnext
  accepted := by
    rw [h.accepted, haccepted, List.countP_cons]
    cases x.bypassed with
    | false =>
      simp only [Bool.not_false, if_true, Bool.false_eq_true, if_false]
      omega
    | true => simp
  bypassed := by
    rw [h.bypassed, hbypassed, List.countP_cons]
    cases x.bypassed with
    | false => simp
    | true =>
      simp only [if_true]
      omega
  noReadyWork := h.noReadyWork
  downstreamFull := h.downstreamFull

theorem serviceLoop_serviced {turns : Nat} {s s' : RopService α σ}
    (hturns : s.queue.size ≤ turns) (hord : s.queue.Ordered)
    (hok : serviceLoop cycle width callbacks turns s = .ok s') :
    ∃ out, Serviced cycle width callbacks s s' out := by
  induction turns generalizing s with
  | zero =>
    cases hok
    refine ⟨[], (List.append_nil _).symm, rfl, by simp, hord, rfl, rfl, rfl, fun _ => ?_, nofun⟩
    have hnil : s.queue.line = [] := by
      apply List.eq_nil_of_length_eq_zero
      rw [length_line]
      omega
    intro x hx
    rw [hnil] at hx
    exact absurd hx List.not_mem_nil
  | succ turns ih =>
    unfold serviceLoop at hok
    split at hok
    · rename_i hnone
      cases hok
      exact ⟨[], (List.append_nil _).symm, rfl, by simp, hord, rfl, rfl, rfl,
        fun _ => popNextReady_none hord hnone, nofun⟩
    · rename_i remote candidate queue hpop
      obtain ⟨hline, hready, hnext, hqueue⟩ := popNextReady_some hpop
      have hsize : queue.size ≤ turns := by
        have := congrArg List.length hline
        rw [List.length_cons, length_line, length_line] at this
        omega
      split at hok
      · obtain ⟨out, hout⟩ := ih hsize (hqueue hord) hok
        exact ⟨_, hout.cons (x := ⟨remote, candidate, true⟩) rfl hline hready hnext rfl rfl⟩
      · obtain ⟨limited, -, hok⟩ := bind_eq_ok hok
        split at hok
        · cases hok
          exact ⟨[], (List.append_nil _).symm, rfl, by simp, hord, rfl, rfl, rfl, nofun, nofun⟩
        · split at hok
          · rename_i hfull
            cases hok
            exact ⟨[], (List.append_nil _).symm, rfl, by simp, hord, rfl, rfl, rfl, nofun,
              fun _ => hfull⟩
          · obtain ⟨out, hout⟩ := ih hsize (hqueue hord) hok
            exact ⟨_, hout.cons (x := ⟨remote, candidate, false⟩) rfl hline hready hnext rfl rfl⟩

theorem serviceLoop_width {turns : Nat} {s s' : RopService α σ}
    (hwithin : WithinWidth width s.result)
    (hok : serviceLoop cycle width callbacks turns s = .ok s') :
    WithinWidth width s'.result ∧
      (s'.result.reason = .widthLimited → FillsWidth width s'.result) := by
  induction turns generalizing s with
  | zero =>
    cases hok
    exact ⟨hwithin, nofun⟩
  | succ turns ih =>
    unfold serviceLoop at hok
    split at hok
    · cases hok
      exact ⟨hwithin, nofun⟩
    · split at hok
      · refine ih ?_ hok
        exact hwithin
      · obtain ⟨limited, hlimited, hok⟩ := bind_eq_ok hok
        obtain ⟨-, hfills, hmore⟩ := widthLimits_ok hlimited hwithin
        split at hok
        · rename_i htrue
          cases hok
          exact ⟨hwithin, fun _ => hfills htrue⟩
        · rename_i hfalse
          split at hok
          · cases hok
            exact ⟨hwithin, nofun⟩
          · exact ih (hmore (Bool.eq_false_iff.mpr hfalse)) hok

/-- An accepted item adds one to the downstream occupancy, a bypassed one nothing. -/
structure Feeds (occupancy : σ → Nat) (callbacks : RopCallbacks α σ) : Prop where
  bypass : ∀ {x downstream downstream'}, callbacks.bypass x downstream = some downstream' →
    occupancy downstream' ≤ occupancy downstream
  accept : ∀ x downstream, occupancy (callbacks.accept x downstream) ≤ occupancy downstream + 1

theorem serviceLoop_occupancy {occupancy : σ → Nat} (hfeeds : Feeds occupancy callbacks)
    {turns : Nat} {s s' : RopService α σ}
    (hok : serviceLoop cycle width callbacks turns s = .ok s') :
    s'.queue.size + occupancy s'.downstream ≤ s.queue.size + occupancy s.downstream := by
  induction turns generalizing s with
  | zero =>
    cases hok
    exact le_refl _
  | succ turns ih =>
    unfold serviceLoop at hok
    split at hok
    · cases hok
      exact le_refl _
    · rename_i remote candidate queue hpop
      have hsize : s.queue.size = queue.size + 1 := by
        have := congrArg List.length (popNextReady_some hpop).1
        rw [List.length_cons, length_line, length_line] at this
        exact this
      split at hok
      · rename_i downstream hbypass
        have := hfeeds.bypass hbypass
        have := ih hok
        dsimp only at this
        omega
      · obtain ⟨limited, -, hok⟩ := bind_eq_ok hok
        split at hok
        · cases hok
          exact le_refl _
        · split at hok
          · cases hok
            exact le_refl _
          · have := hfeeds.accept candidate.item s.downstream
            have := ih hok
            dsimp only at this
            omega

theorem service_loop {q : RopDelayOutputQueue α} {downstream : σ} {s : RopService α σ}
    (hok : q.service cycle width callbacks downstream = .ok s) :
    0 < width ∧ serviceLoop cycle width callbacks q.size ⟨{}, q, downstream, []⟩ = .ok s := by
  obtain ⟨_, hpos, hok⟩ := bind_eq_ok hok
  exact ⟨of_decide_eq_true (require_true hpos), hok⟩

theorem withinWidth_start (width : Nat) : WithinWidth width {} := by
  unfold WithinWidth
  split <;> simp

theorem service_serviced {q : RopDelayOutputQueue α} {downstream : σ} {s : RopService α σ}
    (hord : q.Ordered) (hok : q.service cycle width callbacks downstream = .ok s) :
    Serviced cycle width callbacks ⟨{}, q, downstream, []⟩ s s.removed := by
  obtain ⟨out, hout⟩ := serviceLoop_serviced (s := ⟨{}, q, downstream, []⟩) (le_refl _) hord
    (service_loop hok).2
  have hremoved : s.removed = out := hout.removed
  rw [hremoved]
  exact hout

/-- Items of at least one sector, of exactly one for a width above one, make no assertion fail. -/
theorem service_isOk (hwidth : 0 < width)
    (hsectors : ∀ x, 0 < callbacks.sectorCount x ∧ (width ≠ 1 → callbacks.sectorCount x = 1))
    (q : RopDelayOutputQueue α) (downstream : σ) :
    ∃ s, q.service cycle width callbacks downstream = .ok s := by
  have hlimits : ∀ result x,
      ∃ limited, widthLimits width result (callbacks.sectorCount x) = .ok limited := by
    intro result x
    unfold widthLimits
    rw [require_pass (decide_eq_true (hsectors x).1)]
    by_cases hone : width = 1
    · rw [if_pos hone]
      exact ⟨_, rfl⟩
    · rw [if_neg hone, require_pass (decide_eq_true ((hsectors x).2 hone))]
      exact ⟨_, rfl⟩
  have hloop : ∀ turns (s : RopService α σ),
      ∃ s', serviceLoop cycle width callbacks turns s = .ok s' := by
    intro turns
    induction turns with
    | zero => exact fun s => ⟨_, rfl⟩
    | succ turns ih =>
      intro s
      unfold serviceLoop
      split
      · exact ⟨_, rfl⟩
      · rename_i remote candidate queue hpop
        split
        · exact ih _
        · obtain ⟨limited, hlimited⟩ := hlimits s.result candidate.item
          dsimp only
          rw [hlimited]
          cases limited with
          | true => exact ⟨_, rfl⟩
          | false =>
            show ∃ s', (if callbacks.downstreamFull s.downstream = true then pure _
              else serviceLoop cycle width callbacks turns _) = Except.ok s'
            split
            · exact ⟨_, rfl⟩
            · exact ih _
  unfold service
  rw [require_pass (decide_eq_true hwidth)]
  exact hloop _ _

end RopDelayOutputQueue

/-! ### Runs -/

/-- A queue with what is downstream, the entries pushed, and those that left with their cycle. -/
structure RopRun (α σ : Type) where
  queue : RopDelayOutputQueue α
  downstream : σ
  pushed : List (Bool × DelayEntry α)
  left : List (RopLeaving α × Nat)

/-- A push, a service call, or any change downstream. -/
inductive RopOp (α σ : Type)
  | push (item : α) (readyCycle : Nat) (remote : Bool)
  | service (cycle width : Nat) (callbacks : RopCallbacks α σ)
  | drain (downstream : σ)

namespace RopRun

open RopDelayOutputQueue

variable {α σ : Type}

def init (downstream : σ) : RopRun α σ := ⟨.empty, downstream, [], []⟩

def step (run : RopRun α σ) : RopOp α σ → Except RopFault (RopRun α σ)
  | .push item readyCycle remote =>
    .ok { run with
      queue := run.queue.push item readyCycle remote
      pushed := run.pushed ++ [run.queue.pushed item readyCycle remote] }
  | .service cycle width callbacks => do
    let s ← run.queue.service cycle width callbacks run.downstream
    return { run with
      queue := s.queue
      downstream := s.downstream
      left := run.left ++ s.removed.map fun x => (x, cycle) }
  | .drain downstream => .ok { run with downstream }

/-- Pushes are guarded by `full`, accepted items fill the queue downstream by one, and nothing
else fills it. -/
def allowed (occupancy : σ → Nat) (downstreamCapacity pipelineCapacity : Nat) (run : RopRun α σ) :
    RopOp α σ → Prop
  | .push _ _ _ =>
    run.queue.full 1 (occupancy run.downstream) downstreamCapacity pipelineCapacity = false
  | .service _ _ callbacks => Feeds occupancy callbacks
  | .drain downstream => occupancy downstream ≤ occupancy run.downstream

/-- The line and the entries that left are what was pushed; nothing left early, and the delayed
items fit. -/
structure Kept (occupancy : σ → Nat) (capacity : Nat) (run : RopRun α σ) : Prop where
  ordered : run.queue.Ordered
  conserved : run.pushed.Perm (run.left.map (fun x => x.1.inLine) ++ run.queue.line)
  sequences : run.pushed.map (fun x => x.2.sequence) = List.range run.queue.nextSequence
  ready : ∀ x ∈ run.left, x.1.entry.readyCycle ≤ x.2
  fits : run.queue.size + occupancy run.downstream ≤ capacity

variable {occupancy : σ → Nat} {downstreamCapacity pipelineCapacity : Nat}

/-- The step lemma of the invariant. -/
theorem Kept.step {run run' : RopRun α σ} {op : RopOp α σ}
    (h : Kept occupancy (pipelineCapacity + downstreamCapacity) run)
    (hallowed : allowed occupancy downstreamCapacity pipelineCapacity run op)
    (hok : run.step op = .ok run') :
    Kept occupancy (pipelineCapacity + downstreamCapacity) run' := by
  cases op with
  | push item readyCycle remote =>
    cases hok
    refine ⟨h.ordered.push item readyCycle remote, ?_, ?_, h.ready, ?_⟩
    · have hline := line_push_perm run.queue item readyCycle remote
      have hpushed := h.conserved.append_right [run.queue.pushed item readyCycle remote]
      apply hpushed.trans
      rw [List.append_assoc]
      apply List.Perm.append_left
      exact (List.perm_append_singleton _ _).trans hline.symm
    · have hnext : (run.queue.push item readyCycle remote).nextSequence =
          run.queue.nextSequence + 1 := by
        cases remote <;> rfl
      rw [hnext, List.map_append, h.sequences, List.range_succ]
      rfl
    · have hroom : ¬ run.queue.size + occupancy run.downstream + 1 >
          pipelineCapacity + downstreamCapacity := of_decide_eq_false hallowed
      show (run.queue.push item readyCycle remote).size + occupancy run.downstream ≤ _
      rw [size_push]
      omega
  | service cycle width callbacks =>
    obtain ⟨s, hservice, hok⟩ := bind_eq_ok hok
    cases hok
    have hserviced := service_serviced h.ordered hservice
    have hoccupancy := serviceLoop_occupancy hallowed (service_loop hservice).2
    refine ⟨hserviced.ordered, ?_, ?_, ?_, hoccupancy.trans h.fits⟩
    · have hline : run.queue.line = s.removed.map RopLeaving.inLine ++ s.queue.line :=
        hserviced.line
      have hconserved := h.conserved
      rw [hline, ← List.append_assoc] at hconserved
      rw [List.map_append, List.map_map]
      exact hconserved
    · rw [h.sequences]
      exact congrArg List.range hserviced.next.symm
    · intro x hx
      rcases List.mem_append.mp hx with hx | hx
      · exact h.ready x hx
      · obtain ⟨y, hy, rfl⟩ := List.mem_map.mp hx
        exact hserviced.ready y hy
  | drain downstream =>
    cases hok
    have hless : occupancy downstream ≤ occupancy run.downstream := hallowed
    have hfits := h.fits
    exact ⟨h.ordered, h.conserved, h.sequences, h.ready, by dsimp only; omega⟩

/-- The run lemma. -/
theorem kept_of_reaches {downstream : σ} (hempty : occupancy downstream = 0) {run : RopRun α σ}
    (hreach : Reaches step (allowed occupancy downstreamCapacity pipelineCapacity)
      (.init downstream) run) :
    Kept occupancy (pipelineCapacity + downstreamCapacity) run := by
  apply hreach.invariant (Kept occupancy (pipelineCapacity + downstreamCapacity))
  · refine ⟨ordered_empty, by simp [init, line, empty], rfl,
      fun x hx => absurd hx List.not_mem_nil, ?_⟩
    simp [init, size, empty, hempty]
  · intro s t op hkept hallowed hok
    exact hkept.step hallowed hok

/-- What stays in the line has its place in front of later pushes kept. -/
theorem line_sublist_push {q : RopDelayOutputQueue α} (h : q.Ordered) (item : α)
    (readyCycle : Nat) (remote : Bool) :
    q.line.Sublist (q.push item readyCycle remote).line := by
  have : Std.Antisymm (fun x y : Bool × DelayEntry α => place x < place y) :=
    ⟨fun _ _ hxy hyx => (lt_asymm hxy hyx).elim⟩
  apply List.sublist_of_subperm_of_pairwise (r := fun x y => place x < place y) _ h.line_pairwise
    (h.push item readyCycle remote).line_pairwise
  have hsub : q.line.Sublist (q.pushed item readyCycle remote :: q.line) :=
    List.sublist_cons_self _ _
  exact hsub.subperm.trans (line_push_perm q item readyCycle remote).symm.subperm

end RopRun

end FlashGpuSim
