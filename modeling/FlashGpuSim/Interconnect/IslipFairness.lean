import FlashGpuSim.Interconnect.XbarRouter
import FlashGpuSim.Lib.Reach
import FlashGpuSim.Lib.RoundRobin

/-!
The fairness of `iSLIP_Advance` without virtual output queues. The pointer of an output goes to
the node after the granted one, modulo the number of inputs; it is the next input only when the
first input is at a multiple of that number.
-/

namespace FlashGpuSim

open Lib

namespace XbarRouter

variable {x : Xbar} {r r' : XbarRouter} {granted granted' : List Nat} {o output i input : Nat}

/-- An input with a head packet for an output. -/
def Asks (x : Xbar) (r : XbarRouter) (o i : Nat) : Prop :=
  r.inputHasPacketForOutput x i o = true

instance (x : Xbar) (r : XbarRouter) (o i : Nat) : Decidable (Asks x r o i) :=
  inferInstanceAs (Decidable (_ = true))

/-- The inputs that were granted to an output. -/
def grantsTo (o : Nat) (grants : List (Nat × Nat)) : List Nat :=
  (grants.filter fun g => g.2 = o).map Prod.fst

theorem grantsTo_append (o : Nat) (first second : List (Nat × Nat)) :
    grantsTo o (first ++ second) = grantsTo o first ++ grantsTo o second := by
  unfold grantsTo
  rw [List.filter_append, List.map_append]

theorem grantsTo_nil {grants : List (Nat × Nat)} (h : ∀ g ∈ grants, g.2 ≠ o) :
    grantsTo o grants = [] := by
  unfold grantsTo
  rw [List.filter_eq_nil_iff.mpr fun g hg => by simpa using h g hg, List.map_nil]

theorem asks_iff (hvoq : x.config.useVoq = false) : Asks x r o i ↔
    ∃ packet rest, r.inBuffers i 0 = packet :: rest ∧ packet.outputDeviceId = o := by
  unfold Asks inputHasPacketForOutput Xbar.inputQueueIndex
  rw [hvoq]
  cases hqueue : r.inBuffers i 0 with
  | nil => simp [hqueue]
  | cons packet rest => simp [hqueue]

/-- What the grants for other outputs leave as it was for `o`. -/
structure Aside (x : Xbar) (o : Nat) (r : XbarRouter) (granted : List Nat) (r' : XbarRouter)
    (granted' : List Nat) : Prop where
  nextNode : r'.nextNode o = r.nextNode o
  count : r'.grantCyclesCount = r.grantCyclesCount
  asks : ∀ i, Asks x r o i → Asks x r' o i
  granted : ∀ i, Asks x r o i → i ∉ granted → i ∉ granted'
  grants : ∃ new, r'.grants = r.grants ++ new ∧ ∀ g ∈ new, g.2 ≠ o

theorem Aside.refl (x : Xbar) (o : Nat) (r : XbarRouter) (granted : List Nat) :
    Aside x o r granted r granted :=
  ⟨rfl, rfl, fun _ h => h, fun _ _ h => h, [], (List.append_nil _).symm, fun g hg => (by cases hg)⟩

theorem Aside.trans {r'' : XbarRouter} {granted'' : List Nat}
    (first : Aside x o r granted r' granted') (second : Aside x o r' granted' r'' granted'') :
    Aside x o r granted r'' granted'' := by
  obtain ⟨new, hnew, hother⟩ := first.grants
  obtain ⟨more, hmore, hother'⟩ := second.grants
  refine ⟨second.nextNode.trans first.nextNode, second.count.trans first.count,
    fun i h => second.asks i (first.asks i h),
    fun i h hnot => second.granted i (first.asks i h) (first.granted i h hnot), new ++ more, ?_, ?_⟩
  · rw [hmore, hnew, List.append_assoc]
  · intro g hg
    rcases List.mem_append.mp hg with hg | hg
    · exact hother g hg
    · exact hother' g hg

/-- A transfer to an output takes the head of an input that does not ask for another one. -/
theorem asks_transfer (hvoq : x.config.useVoq = false)
    (hok : r.transferPacket x input output = .ok r') (hne : output ≠ o) (hi : Asks x r o i) :
    i ≠ input ∧ Asks x r' o i := by
  obtain ⟨-, -, packet, rest, hqueue, -, hpacket, rfl⟩ := transferPacket_ok hok
  obtain ⟨buffers, deliveries, hframe⟩ := splitDeliveries_frame x
    (r.moveHead x input output packet rest) output packet
  have hindex : x.inputQueueIndex output = 0 := by
    unfold Xbar.inputQueueIndex
    rw [hvoq]
    rfl
  rw [hindex] at hqueue
  rw [asks_iff hvoq] at hi
  obtain ⟨head, tail, hhead, hfor⟩ := hi
  have hinput : i ≠ input := by
    rintro rfl
    rw [hqueue] at hhead
    cases hhead
    exact hne (hpacket.symm.trans hfor)
  refine ⟨hinput, ?_⟩
  rw [asks_iff hvoq, hframe]
  refine ⟨head, tail, ?_, hfor⟩
  unfold moveHead
  dsimp only
  rw [Function.update_of_ne hinput]
  exact hhead

/-- The grant of an output, when there is one. -/
theorem islipOutput_cases (hvoq : x.config.useVoq = false) (hcount : r.grantCyclesCount = 1)
    (hok : islipOutput x r granted output = .ok (r', granted')) :
    (r' = r ∧ granted' = granted ∧ (r.hasBufferOut x output 1 = true →
      (x.inputsFrom (r.nextNode output)).find? (fun input => (x.allowMultiGrant ||
        !granted.contains input) && r.inputHasPacketForOutput x input output) = none)) ∨
    ∃ input moved, (x.inputsFrom (r.nextNode output)).find? (fun input =>
        (x.allowMultiGrant || !granted.contains input) &&
          r.inputHasPacketForOutput x input output) = some input ∧
      r.transferPacket x input output = .ok moved ∧
      r' = { moved with
        nextNode := Function.update moved.nextNode output ((input + 1) % x.activeInBuffers) } ∧
      (granted' = granted ∨ granted' = granted ++ [input]) := by
  unfold islipOutput at hok
  split at hok
  · rename_i hroom
    cases hok
    refine .inl ⟨rfl, rfl, fun h => ?_⟩
    rw [h] at hroom
    cases hroom
  · dsimp only at hok
    split at hok
    · rename_i hnone
      cases hok
      exact .inl ⟨rfl, rfl, fun _ => hnone⟩
    · rename_i input hfind
      obtain ⟨moved, hmoved, hok⟩ := bind_eq_ok hok
      have hkeep : moved.grantCyclesCount = 1 := by
        obtain ⟨-, -, packet, rest, -, -, -, rfl⟩ := transferPacket_ok hmoved
        obtain ⟨buffers, deliveries, hframe⟩ := splitDeliveries_frame x
          (r.moveHead x input output packet rest) output packet
        rw [hframe]
        exact hcount
      rw [if_pos hkeep, hvoq] at hok
      cases hok
      refine .inr ⟨input, moved, hfind, hmoved, rfl, ?_⟩
      split
      · exact .inl rfl
      · exact .inr rfl

/-- The fields that a transfer does not touch, and its record. -/
theorem transferPacket_frame (hok : r.transferPacket x input output = .ok r') :
    r'.nextNode = r.nextNode ∧ r'.grantCyclesCount = r.grantCyclesCount ∧
      r'.grants = r.grants ++ [(input, output)] := by
  obtain ⟨-, -, packet, rest, -, -, -, rfl⟩ := transferPacket_ok hok
  obtain ⟨buffers, deliveries, hframe⟩ := splitDeliveries_frame x
    (r.moveHead x input output packet rest) output packet
  rw [hframe]
  exact ⟨rfl, rfl, rfl⟩

theorem islipOutput_aside (hvoq : x.config.useVoq = false) (hcount : r.grantCyclesCount = 1)
    (hne : output ≠ o) (hok : islipOutput x r granted output = .ok (r', granted')) :
    Aside x o r granted r' granted' := by
  rcases islipOutput_cases hvoq hcount hok with ⟨rfl, rfl, -⟩ | ⟨input, moved, -, hmoved, rfl, hset⟩
  · exact .refl x o _ _
  · obtain ⟨hnode, hkeep, hgrants⟩ := transferPacket_frame hmoved
    refine ⟨?_, hkeep, fun i hi => (asks_transfer hvoq hmoved hne hi).2, fun i hi hnot => ?_,
      [(input, output)], hgrants, fun g hg => ?_⟩
    · dsimp only
      rw [Function.update_of_ne hne.symm, hnode]
    · have hi := (asks_transfer hvoq hmoved hne hi).1
      rcases hset with rfl | rfl
      · exact hnot
      · intro hin
        rcases List.mem_append.mp hin with hin | hin
        · exact hnot hin
        · exact hi (List.mem_singleton.mp hin)
    · rw [List.mem_singleton.mp hg]
      exact hne

theorem foldlM_aside (hvoq : x.config.useVoq = false) {outputs : List Nat} (ho : o ∉ outputs)
    (hcount : r.grantCyclesCount = 1)
    (hok : outputs.foldlM (fun s output => islipOutput x s.1 s.2 output) (r, granted) =
      .ok (r', granted')) : Aside x o r granted r' granted' := by
  induction outputs generalizing r granted with
  | nil =>
    cases hok
    exact .refl x o _ _
  | cons output rest ih =>
    rw [List.foldlM_cons] at hok
    obtain ⟨⟨middle, set⟩, hfirst, hrest⟩ := bind_eq_ok hok
    rw [List.mem_cons, not_or] at ho
    have haside := islipOutput_aside hvoq hcount (Ne.symm ho.1) hfirst
    exact haside.trans (ih ho.2 (haside.count.trans hcount) hrest)

theorem mem_outputsFrom_zero : o ∈ x.outputsFrom 0 ↔
    x.activeOutBufferBase ≤ o ∧ o < x.activeOutBufferBase + x.activeOutBuffers := by
  unfold Xbar.outputsFrom
  rw [List.mem_map]
  constructor
  · rintro ⟨k, hk, rfl⟩
    rw [List.mem_range] at hk
    rw [Nat.add_zero, Nat.mod_eq_of_lt hk]
    omega
  · rintro ⟨hle, hlt⟩
    refine ⟨o - x.activeOutBufferBase, List.mem_range.mpr (by omega), ?_⟩
    rw [Nat.add_zero, Nat.mod_eq_of_lt (by omega)]
    omega

theorem outputsFrom_zero_nodup (x : Xbar) : (x.outputsFrom 0).Nodup := by
  refine List.Nodup.map_on (fun k hk k' hk' heq => ?_) List.nodup_range
  rw [List.mem_range] at hk hk'
  rw [Nat.add_zero, Nat.add_zero, Nat.mod_eq_of_lt hk, Nat.mod_eq_of_lt hk'] at heq
  omega

/-- The input that is `k` places ahead of a pointer. -/
def place (x : Xbar) (p k : Nat) : Nat := x.activeInBufferBase + (k + p) % x.activeInBuffers

theorem find_inputsFrom {p g : Nat} {ready : Nat → Bool}
    (hfind : (x.inputsFrom p).find? ready = some g) :
    ∃ k < x.activeInBuffers, g = place x p k ∧ ready g = true ∧
      ∀ j < k, ready (place x p j) = false := by
  unfold Xbar.inputsFrom at hfind
  rw [List.find?_map, Option.map_eq_some_iff] at hfind
  obtain ⟨k, hk, rfl⟩ := hfind
  rw [List.find?_range_eq_some] at hk
  obtain ⟨hready, hlt, hbefore⟩ := hk
  exact ⟨k, List.mem_range.mp hlt, rfl, hready, fun j hj => by simpa [place] using hbefore j hj⟩

/-- An input of the network is the place at its distance from the pointer. -/
theorem place_input {p : Nat} (hle : x.activeInBufferBase ≤ i)
    (hlt : i < x.activeInBufferBase + x.activeInBuffers) :
    place x p (ahead x.activeInBuffers p (i - x.activeInBufferBase)) = i := by
  unfold place
  rw [place_ahead (by omega), Nat.add_sub_cancel' hle]

/-- What one `iSLIP_Advance` does for an output: it grants no input, or the first one from its
pointer on. -/
inductive Granted (x : Xbar) (o : Nat) (r t : XbarRouter) (new : List (Nat × Nat)) : Prop
  | nothing : grantsTo o new = [] → t.nextNode o = r.nextNode o → Granted x o r t new
  | input (k : Nat) : k < x.activeInBuffers →
      grantsTo o new = [place x (r.nextNode o) k] →
      t.nextNode o = (place x (r.nextNode o) k + 1) % x.activeInBuffers →
      (∀ i, Asks x r o i → x.activeInBufferBase ≤ i →
        i < x.activeInBufferBase + x.activeInBuffers →
        k ≤ ahead x.activeInBuffers (r.nextNode o) (i - x.activeInBufferBase)) →
      Granted x o r t new

theorem islipOutput_granted (hvoq : x.config.useVoq = false) (hcount : r.grantCyclesCount = 1)
    (hok : islipOutput x r granted o = .ok (r', granted')) :
    r'.grantCyclesCount = 1 ∧ ∃ new, r'.grants = r.grants ++ new ∧
      ((new = [] ∧ r'.nextNode o = r.nextNode o) ∨ ∃ k < x.activeInBuffers,
        new = [(place x (r.nextNode o) k, o)] ∧
        r'.nextNode o = (place x (r.nextNode o) k + 1) % x.activeInBuffers ∧
        ∀ i, Asks x r o i → i ∉ granted → x.activeInBufferBase ≤ i →
          i < x.activeInBufferBase + x.activeInBuffers →
          k ≤ ahead x.activeInBuffers (r.nextNode o) (i - x.activeInBufferBase)) := by
  rcases islipOutput_cases hvoq hcount hok with ⟨rfl, rfl, -⟩ | ⟨g, moved, hfind, hmoved, rfl, -⟩
  · exact ⟨hcount, [], (List.append_nil _).symm, .inl ⟨rfl, rfl⟩⟩
  · obtain ⟨hnode, hkeep, hgrants⟩ := transferPacket_frame hmoved
    obtain ⟨k, hk, rfl, -, hbefore⟩ := find_inputsFrom hfind
    refine ⟨hkeep.trans hcount, _, hgrants, .inr ⟨k, hk, rfl, ?_, fun i hi hnot hle hlt => ?_⟩⟩
    · dsimp only
      rw [Function.update_self]
    · apply Nat.le_of_not_lt
      intro hnear
      have hidle := hbefore _ hnear
      rw [place_input hle hlt] at hidle
      unfold Asks at hi
      rw [hi] at hidle
      simp [hnot] at hidle

theorem foldlM_granted (hvoq : x.config.useVoq = false) (hcount : r.grantCyclesCount = 1)
    {set : List Nat} {t : XbarRouter} (o : Nat)
    (hok : (x.outputsFrom 0).foldlM (fun s output => islipOutput x s.1 s.2 output) (r, []) =
      .ok (t, set)) :
    t.grantCyclesCount = 1 ∧ ∃ new, t.grants = r.grants ++ new ∧ Granted x o r t new := by
  by_cases ho : o ∈ x.outputsFrom 0
  · obtain ⟨before, after, hsplit⟩ := List.append_of_mem ho
    have hnodup := outputsFrom_zero_nodup x
    rw [hsplit, List.nodup_append, List.nodup_cons] at hnodup
    obtain ⟨-, ⟨hafter, -⟩, hapart⟩ := hnodup
    have hbefore : o ∉ before := fun hin => hapart o hin o List.mem_cons_self rfl
    rw [hsplit, List.foldlM_append] at hok
    obtain ⟨⟨mid, granted⟩, hfirst, hok⟩ := bind_eq_ok hok
    rw [List.foldlM_cons] at hok
    obtain ⟨⟨own, granted'⟩, hown, hlast⟩ := bind_eq_ok hok
    have haside := foldlM_aside hvoq hbefore hcount hfirst
    obtain ⟨hown_count, new, hnew, hgrant⟩ :=
      islipOutput_granted hvoq (haside.count.trans hcount) hown
    have haside' := foldlM_aside hvoq hafter hown_count hlast
    obtain ⟨left, hleft, hleft_other⟩ := haside.grants
    obtain ⟨right, hright, hright_other⟩ := haside'.grants
    refine ⟨haside'.count.trans hown_count, left ++ new ++ right, ?_, ?_⟩
    · rw [hright, hnew, hleft]
      simp only [List.append_assoc]
    · have hto : grantsTo o (left ++ new ++ right) = grantsTo o new := by
        rw [grantsTo_append, grantsTo_append, grantsTo_nil hleft_other,
          grantsTo_nil hright_other, List.nil_append, List.append_nil]
      rw [haside.nextNode] at hgrant
      rcases hgrant with ⟨rfl, hnode⟩ | ⟨k, hk, rfl, hnode, hnear⟩
      · exact .nothing hto (haside'.nextNode.trans hnode)
      · refine .input k hk (hto.trans (by simp [grantsTo])) (haside'.nextNode.trans hnode)
          fun i hi => hnear i (haside.asks i hi) (haside.granted i hi List.not_mem_nil)
  · have haside := foldlM_aside hvoq ho hcount hok
    obtain ⟨new, hnew, hother⟩ := haside.grants
    exact ⟨haside.count.trans hcount, new, hnew, .nothing (grantsTo_nil hother) haside.nextNode⟩

theorem countGrantCycles_one (hone : x.config.grantCycles = 1) (hcount : r.grantCyclesCount = 1)
    (active : Bool) : r.countGrantCycles x active = r := by
  unfold countGrantCycles
  cases active with
  | false => rfl
  | true =>
    rw [hone, hcount]
    simp [← hcount]

theorem islipAdvance_granted (hvoq : x.config.useVoq = false) (hone : x.config.grantCycles = 1)
    (hcount : r.grantCyclesCount = 1) {t : XbarRouter} (hok : r.islipAdvance x = .ok t) :
    t.grantCyclesCount = 1 ∧ ∃ new, t.grants = r.grants ++ new ∧ ∀ o, Granted x o r t new := by
  unfold islipAdvance at hok
  rw [hvoq] at hok
  obtain ⟨⟨last, set⟩, hfold, hok⟩ := bind_eq_ok hok
  obtain ⟨hlast, new, hnew, -⟩ := foldlM_granted hvoq hcount 0 hfold
  dsimp only at hok
  rw [countGrantCycles_one hone hlast] at hok
  cases hok
  refine ⟨hlast, new, hnew, fun o => ?_⟩
  obtain ⟨-, new', hnew', hgrant⟩ := foldlM_granted hvoq hcount o hfold
  obtain rfl : new' = new := List.append_cancel_left (hnew'.symm.trans hnew)
  cases hgrant with
  | nothing hto hnode => exact .nothing hto hnode
  | input k hk hto hnode hnear => exact .input k hk hto hnode hnear

/-- The arbitration in question: one queue per input, a new grant in each cycle, no explicit
widths, and output buffers that hold what a run needs. -/
structure PlainIslip (x : Xbar) : Prop where
  algorithm : x.config.arbiterAlgo = .islip
  oneQueue : x.config.useVoq = false
  grantCycles : x.config.grantCycles = 1
  inputWidth : x.inputSectorWidth = 0
  outputWidth : x.outputSectorWidth = 0
  buffers : 2 ≤ x.config.outBufferLimit

theorem PlainIslip.advance (hx : PlainIslip x) (r : XbarRouter) :
    r.advance x = r.islipAdvance x := by
  unfold XbarRouter.advance
  rw [hx.inputWidth, hx.outputWidth, hx.algorithm]
  rfl

def IsInput (x : Xbar) (i : Nat) : Prop :=
  x.activeInBufferBase ≤ i ∧ i < x.activeInBufferBase + x.activeInBuffers

/-- Two inputs ask for an output, and no output buffer is full. -/
def Contended (x : Xbar) (o a b : Nat) (r : XbarRouter) : Prop :=
  Asks x r o a ∧ Asks x r o b ∧ ∀ output, r.hasBufferOut x output 1 = true

/-- A part of a run in which two inputs ask for an output at the start of every cycle. -/
def Contest (x : Xbar) (o a b : Nat) (s t : XbarRouter) : Prop :=
  Reaches (step x) (fun r call => call = .advance → Contended x o a b r) s t

/-- While two inputs ask for an output it never grants one of them twice without the other in
between, and its pointer goes to the input after the granted one. -/
def Fair (x : Xbar) : Prop :=
  ∀ s, Reaches (step x) (fun _ _ => True) (init x) s → ∀ o,
    (∀ a b, IsInput x a → IsInput x b → a ≠ b → ∀ t new, Contest x o a b s t →
      t.grants = s.grants ++ new → ∀ first between last,
      grantsTo o new = first ++ a :: (between ++ a :: last) → b ∈ between) ∧
    ∀ t new g, s.advance x = .ok t → t.grants = s.grants ++ new → (g, o) ∈ new →
      t.nextNode o = (g - x.activeInBufferBase + 1) % x.activeInBuffers

/-- A call that arbitrates nothing. -/
structure Idle (r r' : XbarRouter) : Prop where
  nextNode : r'.nextNode = r.nextNode
  count : r'.grantCyclesCount = r.grantCyclesCount
  grants : r'.grants = r.grants

theorem push_idle {packet : XbarPacket} {fetch : XbarFetch}
    (hok : r.push x input packet fetch = .ok r') : Idle r r' := by
  obtain ⟨pushed, hpush, hok⟩ := bind_eq_ok hok
  cases hok
  obtain ⟨_, -, hpush⟩ := bind_eq_ok hpush
  obtain ⟨_, -, hpush⟩ := bind_eq_ok hpush
  dsimp only at hpush
  split at hpush
  · cases hpush
    exact ⟨rfl, rfl, rfl⟩
  · split at hpush
    · obtain ⟨⟨admitted, tracker⟩, -, hpush⟩ := bind_eq_ok hpush
      cases hpush
      cases admitted with
      | false => exact ⟨rfl, rfl, rfl⟩
      | true => exact ⟨rfl, rfl, rfl⟩
    · cases hpush
      exact ⟨rfl, rfl, rfl⟩

theorem closeRequest_idle (output : Nat) (x : Xbar) (r : XbarRouter) (packet : XbarPacket) :
    Idle r (r.closeRequest x output packet) := by
  unfold closeRequest
  split
  · exact ⟨rfl, rfl, rfl⟩
  · exact ⟨rfl, rfl, rfl⟩

theorem closeResponse_idle (x : Xbar) (r : XbarRouter) (packet : XbarPacket) :
    Idle r (r.closeResponse x packet) := by
  unfold closeResponse
  split
  · split
    · exact ⟨rfl, rfl, rfl⟩
    · exact ⟨rfl, rfl, rfl⟩
  · exact ⟨rfl, rfl, rfl⟩

theorem pop_idle {data : Option Nat} (hok : r.pop x output = .ok (data, r')) : Idle r r' := by
  obtain ⟨_, -, hok⟩ := bind_eq_ok hok
  dsimp only at hok
  split at hok
  · split at hok
    · cases hok
      exact ⟨rfl, rfl, rfl⟩
    · split at hok
      · cases hok
        exact ⟨rfl, rfl, rfl⟩
      · cases hok
        exact ⟨rfl, rfl, rfl⟩
  · cases hok
    exact ⟨rfl, rfl, rfl⟩
  · rename_i packet rest _ _
    cases hok
    have hrequest := closeRequest_idle output x
      { r with outBuffers := Function.update r.outBuffers output rest } packet
    have hresponse := closeResponse_idle x (closeRequest x
      { r with outBuffers := Function.update r.outBuffers output rest } output packet) packet
    exact ⟨hresponse.nextNode.trans hrequest.nextNode, hresponse.count.trans hrequest.count,
      hresponse.grants.trans hrequest.grants⟩

theorem step_idle {call : XbarCall} (hcall : call ≠ .advance) (hok : step x r call = .ok r') :
    Idle r r' := by
  cases call with
  | push input packet fetch => exact push_idle hok
  | pushMulticast input packet fetch destinations =>
    obtain ⟨_, -, hok⟩ := bind_eq_ok hok
    obtain ⟨_, -, hok⟩ := bind_eq_ok hok
    obtain ⟨_, -, hok⟩ := bind_eq_ok hok
    obtain ⟨_, -, hok⟩ := bind_eq_ok hok
    obtain ⟨_, -, hok⟩ := bind_eq_ok hok
    obtain ⟨_, -, hok⟩ := bind_eq_ok hok
    have hpush := push_idle hok
    exact ⟨hpush.nextNode, hpush.count, hpush.grants⟩
  | advance => exact absurd rfl hcall
  | pop output =>
    obtain ⟨⟨data, after⟩, hpop, hok⟩ := bind_eq_ok hok
    cases hok
    exact pop_idle hpop

theorem count_of_reaches (hx : PlainIslip x) {allowed : XbarRouter → XbarCall → Prop}
    {s t : XbarRouter} (h : Reaches (step x) allowed s t) (hs : s.grantCyclesCount = 1) :
    t.grantCyclesCount = 1 := by
  refine h.invariant (fun r => r.grantCyclesCount = 1) hs fun r r' call hr _ hok => ?_
  by_cases hcall : call = .advance
  · rw [hcall] at hok
    exact (islipAdvance_granted hx.oneQueue hx.grantCycles hr
      ((hx.advance r).symm.trans hok)).1
  · exact (step_idle hcall hok).count.trans hr

/-- The grants of a contest, as those of a round-robin pointer over the inputs. -/
theorem Contest.serves (hx : PlainIslip x) (hbase : x.activeInBufferBase % x.activeInBuffers = 0)
    {o a b : Nat} (ha : IsInput x a) (hb : IsInput x b) {s t : XbarRouter}
    (h : Contest x o a b s t) (hs : s.grantCyclesCount = 1) :
    ∃ new, t.grants = s.grants ++ new ∧ (∀ g ∈ grantsTo o new, x.activeInBufferBase ≤ g) ∧
      Serves x.activeInBuffers
        (fun k => k = a - x.activeInBufferBase ∨ k = b - x.activeInBufferBase)
        (s.nextNode o) ((grantsTo o new).map (· - x.activeInBufferBase)) (t.nextNode o) := by
  induction h with
  | refl => exact ⟨[], (List.append_nil _).symm, fun g hg => (by cases hg), .nil _⟩
  | next hrun hallowed hok ih =>
    rename_i mid t call
    obtain ⟨new, hnew, hle, hserves⟩ := ih
    by_cases hcall : call = .advance
    · have hcontended := hallowed hcall
      rw [hcall] at hok
      obtain ⟨-, more, hmore, hgrant⟩ := islipAdvance_granted hx.oneQueue hx.grantCycles
        (count_of_reaches hx hrun hs) ((hx.advance mid).symm.trans hok)
      refine ⟨new ++ more, by rw [hmore, hnew, List.append_assoc], ?_⟩
      rw [grantsTo_append]
      cases hgrant o with
      | nothing hto hnode =>
        rw [hto, List.append_nil, hnode]
        exact ⟨hle, hserves⟩
      | input k hk hto hnode hnear =>
        rw [hto, List.map_append, hnode]
        refine ⟨fun g hg => ?_, ?_⟩
        · rcases List.mem_append.mp hg with hg | hg
          · exact hle g hg
          · rw [List.mem_singleton.mp hg]
            exact Nat.le_add_right _ _
        · have hpos : 0 < x.activeInBuffers := Nat.lt_of_le_of_lt (Nat.zero_le _) hk
          have hplace : place x (mid.nextNode o) k - x.activeInBufferBase =
              (k + mid.nextNode o) % x.activeInBuffers := Nat.add_sub_cancel_left _ _
          have hpointer : (place x (mid.nextNode o) k + 1) % x.activeInBuffers =
              ((k + mid.nextNode o) % x.activeInBuffers + 1) % x.activeInBuffers := by
            unfold place
            rw [Nat.add_assoc, Nat.add_mod, hbase, Nat.zero_add, Nat.mod_mod]
          rw [hpointer, List.map_singleton, hplace]
          refine hserves.concat (Nat.mod_lt _ hpos) fun i hi hask => ?_
          rw [ahead_place hk]
          rcases hask with rfl | rfl
          · exact hnear a hcontended.1 ha.1 ha.2
          · exact hnear b hcontended.2.1 hb.1 hb.2
    · have hidle := step_idle hcall hok
      rw [hidle.nextNode, hidle.grants]
      exact ⟨new, hnew, hle, hserves⟩

theorem mem_grantsTo {new : List (Nat × Nat)} {g : Nat} (hin : (g, o) ∈ new) :
    g ∈ grantsTo o new := by
  unfold grantsTo
  simp only [List.mem_map, List.mem_filter, decide_eq_true_eq]
  exact ⟨(g, o), ⟨hin, rfl⟩, rfl⟩

/-- Without inputs nothing is granted. -/
theorem fair_of_no_inputs (hx : PlainIslip x) (hnone : x.activeInBuffers = 0) : Fair x := by
  intro s hs o
  refine ⟨fun a b ha => ?_, fun t new g hok hnew hin => ?_⟩
  · unfold IsInput at ha
    omega
  · obtain ⟨-, new', hnew', hgrant⟩ := islipAdvance_granted hx.oneQueue hx.grantCycles
      (count_of_reaches hx hs hx.grantCycles) ((hx.advance s).symm.trans hok)
    obtain rfl : new' = new := List.append_cancel_left (hnew'.symm.trans hnew)
    have hg := mem_grantsTo hin
    cases hgrant o with
    | nothing hto _ =>
      rw [hto] at hg
      cases hg
    | input k hk => omega

/-- With the first input at a multiple of the number of inputs. -/
theorem fair_of_base (hx : PlainIslip x)
    (hbase : x.activeInBufferBase % x.activeInBuffers = 0) : Fair x := by
  intro s hs o
  have hcount : s.grantCyclesCount = 1 := count_of_reaches hx hs hx.grantCycles
  refine ⟨fun a b ha hb hne t new hcontest hnew first between last hsplit => ?_,
    fun t new g hok hnew hin => ?_⟩
  · obtain ⟨new', hnew', hle, hserves⟩ := hcontest.serves hx hbase ha hb hcount
    obtain rfl : new' = new := List.append_cancel_left (hnew'.symm.trans hnew)
    rw [hsplit, List.map_append, List.map_cons, List.map_append, List.map_cons] at hserves
    have hdiff : b - x.activeInBufferBase ≠ a - x.activeInBufferBase := by
      have h1 := ha.1
      have h2 := hb.1
      omega
    have hrange : b - x.activeInBufferBase < x.activeInBuffers := by
      have h1 := hb.1
      have h2 := hb.2
      omega
    obtain ⟨y, hy, heq⟩ := List.mem_map.mp (hserves.fair hrange (.inr rfl) hdiff)
    have hmem : y ∈ grantsTo o new' := by
      rw [hsplit]
      simp [hy]
    have hyle := hle y hmem
    have hble := hb.1
    obtain rfl : y = b := by omega
    exact hy
  · obtain ⟨-, new', hnew', hgrant⟩ := islipAdvance_granted hx.oneQueue hx.grantCycles hcount
      ((hx.advance s).symm.trans hok)
    obtain rfl : new' = new := List.append_cancel_left (hnew'.symm.trans hnew)
    have hg := mem_grantsTo hin
    cases hgrant o with
    | nothing hto _ =>
      rw [hto] at hg
      cases hg
    | input k hk hto hnode _ =>
      rw [hto, List.mem_singleton] at hg
      rw [hnode, hg]
      unfold place
      rw [Nat.add_sub_cancel_left, Nat.add_assoc, Nat.add_mod, hbase, Nat.zero_add, Nat.mod_mod]

theorem islipOutput_idle (hidle : ∀ i, ¬ Asks x r output i) :
    islipOutput x r granted output = .ok (r, granted) := by
  have hnone : (x.inputsFrom (r.nextNode output)).find? (fun input =>
      (x.allowMultiGrant || !granted.contains input) &&
        r.inputHasPacketForOutput x input output) = none := by
    rw [List.find?_eq_none]
    intro i _
    have hi := hidle i
    unfold Asks at hi
    simp [hi]
  unfold islipOutput
  split
  · rfl
  · dsimp only
    rw [hnone]
    rfl

theorem foldlM_idle {outputs : List Nat} (hidle : ∀ output ∈ outputs, ∀ i, ¬ Asks x r output i) :
    outputs.foldlM (fun s output => islipOutput x s.1 s.2 output) (r, granted) =
      .ok (r, granted) := by
  induction outputs with
  | nil => rfl
  | cons output rest ih =>
    rw [List.foldlM_cons, islipOutput_idle (hidle output List.mem_cons_self)]
    exact ih fun o ho => hidle o (List.mem_cons_of_mem _ ho)

/-- Two inputs with one packet each for an output, and nothing else in the network. -/
structure TwoInputs (x : Xbar) (r : XbarRouter) (o a b : Nat) (pa pb : XbarPacket) : Prop where
  inputA : IsInput x a
  inputB : IsInput x b
  ne : a ≠ b
  output : o ∈ x.outputsFrom 0
  queues : ∀ i, r.inBuffers i 0 = if i = a then [pa] else if i = b then [pb] else []
  toA : pa.outputDeviceId = o
  toB : pb.outputDeviceId = o
  occupied : 0 < r.inBufferOccupancy a
  range : a < x.totalNodes ∧ o < x.totalNodes
  room : r.hasBufferOut x o 1 = true
  nearer : ahead x.activeInBuffers (r.nextNode o) (a - x.activeInBufferBase) <
    ahead x.activeInBuffers (r.nextNode o) (b - x.activeInBufferBase)

theorem find_inputsFrom_nearest {p : Nat} {ready : Nat → Bool} {a : Nat} (ha : IsInput x a)
    (hready : ready a = true)
    (hbefore : ∀ j < ahead x.activeInBuffers p (a - x.activeInBufferBase),
      ready (place x p j) = false) : (x.inputsFrom p).find? ready = some a := by
  have hlt : ahead x.activeInBuffers p (a - x.activeInBufferBase) < x.activeInBuffers := by
    apply ahead_lt
    have h1 := ha.1
    have h2 := ha.2
    omega
  have hfind : (List.range x.activeInBuffers).find? (ready ∘ place x p) =
      some (ahead x.activeInBuffers p (a - x.activeInBufferBase)) := by
    rw [List.find?_range_eq_some]
    refine ⟨?_, List.mem_range.mpr hlt, fun j hj => by simp [hbefore j hj]⟩
    rw [Function.comp_apply, place_input ha.1 ha.2]
    exact hready
  have hmap : (x.inputsFrom p).find? ready =
      ((List.range x.activeInBuffers).find? (ready ∘ place x p)).map (place x p) :=
    List.find?_map
  rw [hmap, hfind, Option.map_some, place_input ha.1 ha.2]

theorem TwoInputs.advance (hx : PlainIslip x) {o a b : Nat} {pa pb : XbarPacket}
    (h : TwoInputs x r o a b pa pb) (hcount : r.grantCyclesCount = 1) :
    ∃ t, r.islipAdvance x = .ok t ∧ t.grants = r.grants ++ [(a, o)] ∧
      (∀ i, t.inBuffers i 0 = if i = b then [pb] else []) ∧
      t.nextNode o = (a + 1) % x.activeInBuffers ∧
      t.outBuffers = Function.update r.outBuffers o (r.outBuffers o ++ [pa]) := by
  have hqueueA : r.inBuffers a 0 = [pa] := by rw [h.queues, if_pos rfl]
  have hqueueB : r.inBuffers b 0 = [pb] := by rw [h.queues, if_neg h.ne.symm, if_pos rfl]
  have hasksA : Asks x r o a := (asks_iff hx.oneQueue).mpr ⟨pa, [], hqueueA, h.toA⟩
  have hindex : x.inputQueueIndex o = 0 := by
    unfold Xbar.inputQueueIndex
    rw [hx.oneQueue]
    rfl
  -- no packet of the two inputs is for another output
  have honly : ∀ output i, Asks x r output i → output = o ∧ (i = a ∨ i = b) := by
    intro output i hi
    obtain ⟨packet, rest, hqueue, hto⟩ := (asks_iff hx.oneQueue).mp hi
    rw [h.queues] at hqueue
    split at hqueue
    · rename_i heq
      cases hqueue
      exact ⟨hto.symm.trans h.toA, .inl heq⟩
    · split at hqueue
      · rename_i heq
        cases hqueue
        exact ⟨hto.symm.trans h.toB, .inr heq⟩
      · cases hqueue
  have hfind : (x.inputsFrom (r.nextNode o)).find? (fun input =>
      (x.allowMultiGrant || !([] : List Nat).contains input) &&
        r.inputHasPacketForOutput x input o) = some a := by
    refine find_inputsFrom_nearest h.inputA (by unfold Asks at hasksA; simp [hasksA]) ?_
    intro j hj
    have hjlt : j < x.activeInBuffers := by
      refine hj.trans (ahead_lt ?_ _ _)
      have h1 := h.inputA.1
      have h2 := h.inputA.2
      omega
    have hdist : ahead x.activeInBuffers (r.nextNode o)
        (place x (r.nextNode o) j - x.activeInBufferBase) = j := by
      unfold place
      rw [Nat.add_sub_cancel_left]
      exact ahead_place hjlt
    have hnot : ¬ Asks x r o (place x (r.nextNode o) j) := by
      intro hasks
      have hnear := h.nearer
      rcases (honly o _ hasks).2 with heq | heq
      · rw [heq] at hdist
        omega
      · rw [heq] at hdist
        omega
    unfold Asks at hnot
    simp [hnot]
  obtain ⟨moved, hmoved, hmoved_eq⟩ : ∃ moved, r.transferPacket x a o = .ok moved ∧
      moved = (r.moveHead x a o pa []).splitDeliveries x o pa := by
    refine ⟨_, ?_, rfl⟩
    unfold transferPacket
    rw [hindex, hqueueA, require_pass (decide_eq_true h.range.1),
      require_pass (decide_eq_true h.range.2)]
    dsimp only
    rw [require_pass (decide_eq_true h.occupied), require_pass (by simpa using h.toA)]
    rfl
  obtain ⟨buffers, deliveries, hframe⟩ := splitDeliveries_frame x (r.moveHead x a o pa []) o pa
  rw [hframe] at hmoved_eq
  have hmoved_count : moved.grantCyclesCount = 1 := by
    rw [hmoved_eq]
    exact hcount
  obtain ⟨after, hafter⟩ : ∃ after : XbarRouter, after = { moved with
    nextNode := Function.update moved.nextNode o ((a + 1) % x.activeInBuffers) } := ⟨_, rfl⟩
  obtain ⟨set, hown⟩ : ∃ set, islipOutput x r [] o = .ok (after, set) := by
    refine ⟨if x.allowMultiGrant then [] else [] ++ [a], ?_⟩
    unfold islipOutput
    rw [h.room]
    rw [if_neg (by simp)]
    dsimp only
    rw [hfind]
    dsimp only
    rw [hmoved, hx.oneQueue, hafter]
    change Except.ok _ = _
    rw [if_pos hmoved_count]
    rfl
  have hqueues : ∀ i, after.inBuffers i 0 = if i = b then [pb] else [] := by
    intro i
    rw [hafter, hmoved_eq]
    unfold moveHead
    dsimp only
    rcases eq_or_ne i a with rfl | hne
    · rw [Function.update_self, hindex, Function.update_self, if_neg h.ne]
    · rw [Function.update_of_ne hne, h.queues, if_neg hne]
  have hidle : ∀ output, output ≠ o → ∀ i, ¬ Asks x after output i := by
    intro output hne i hi
    obtain ⟨packet, rest, hqueue, hto⟩ := (asks_iff hx.oneQueue).mp hi
    rw [hqueues] at hqueue
    split at hqueue
    · cases hqueue
      exact hne (hto.symm.trans h.toB)
    · cases hqueue
  have hfold : (x.outputsFrom 0).foldlM (fun s output => islipOutput x s.1 s.2 output) (r, []) =
      .ok (after, set) := by
    obtain ⟨before, rest, hsplit⟩ := List.append_of_mem h.output
    have hnodup := outputsFrom_zero_nodup x
    rw [hsplit, List.nodup_append, List.nodup_cons] at hnodup
    obtain ⟨-, ⟨hrest, -⟩, hapart⟩ := hnodup
    rw [hsplit, List.foldlM_append, foldlM_idle fun output hin i hi => ?_]
    · change (o :: rest).foldlM (fun s output => islipOutput x s.1 s.2 output) (r, []) = _
      rw [List.foldlM_cons, hown]
      exact foldlM_idle fun output hin => hidle output fun heq => hrest (heq ▸ hin)
    · exact hapart output hin o List.mem_cons_self (honly output i hi).1
  have hafter_count : after.grantCyclesCount = 1 := by
    rw [hafter]
    exact hmoved_count
  refine ⟨{ after with cycles := after.cycles + 1 }, ?_, ?_, hqueues, ?_, ?_⟩
  · unfold islipAdvance
    rw [hx.oneQueue]
    dsimp only
    rw [if_neg (by simp), hfold]
    change Except.ok _ = _
    rw [countGrantCycles_one hx.grantCycles hafter_count]
  · rw [hafter, hmoved_eq]
    rfl
  · rw [hafter]
    exact Function.update_self _ _ _
  · rw [hafter, hmoved_eq]
    rfl

/-- In the reply network a packet enters the queue of its input. -/
theorem push_reply (r : XbarRouter) (input : Nat) (hreply : x.isRequest = false) (hvoq : x.config.useVoq = false)
    {packet : XbarPacket} (hin : input < x.totalNodes)
    (hout : packet.outputDeviceId < x.totalNodes) :
    ∃ t, r.push x input packet {} = .ok t ∧ Idle r t ∧ t.outBuffers = r.outBuffers ∧
      0 < t.inBufferOccupancy input ∧
      (∀ i, i ≠ input → t.inBufferOccupancy i = r.inBufferOccupancy i) ∧
      ∀ i, t.inBuffers i 0 = if i = input then r.inBuffers i 0 ++ [packet] else r.inBuffers i 0 := by
  have hindex : x.inputQueueIndex packet.outputDeviceId = 0 := by
    unfold Xbar.inputQueueIndex
    rw [hvoq]
    rfl
  have hmulticast : x.tmaRequestMulticast = false := by
    unfold Xbar.tmaRequestMulticast
    rw [hreply, Bool.false_and]
  refine ⟨{ r.enqueue x input packet with
    pushed := r.pushed ++ [(packet.data, packet.outputDeviceId)] }, ?_, ⟨rfl, rfl, rfl⟩, rfl, ?_, ?_,
    fun i => ?_⟩
  · unfold push pushPacket
    rw [require_pass (decide_eq_true hin), require_pass (decide_eq_true hout), hmulticast]
    rfl
  · unfold enqueue
    dsimp only
    rw [Function.update_self]
    exact Nat.succ_pos _
  · intro i hne
    exact Function.update_of_ne hne _ _
  · unfold enqueue
    dsimp only
    rw [hindex]
    split
    · rename_i heq
      rw [heq, Function.update_self, Function.update_self]
    · rename_i hne
      rw [Function.update_of_ne hne]

/-- In the reply network, when the number of shaders is no multiple of the number of memories,
the first memory is granted twice while another one asks. -/
theorem not_fair_of_offset (hx : PlainIslip x) (hreply : x.isRequest = false)
    (hmem : 0 < x.nMem) (hoffset : x.nShader % x.nMem ≠ 0) : ¬ Fair x := by
  intro hfair
  obtain ⟨d, hd⟩ : ∃ d, x.nShader % x.nMem = d := ⟨_, rfl⟩
  have hdlt : d < x.nMem := hd ▸ Nat.mod_lt _ hmem
  have hbase : x.activeInBufferBase = x.nShader := by
    unfold Xbar.activeInBufferBase
    rw [hreply]
    rfl
  have hinputs : x.activeInBuffers = x.nMem := by
    unfold Xbar.activeInBuffers
    rw [hreply]
    rfl
  have hshader : 0 < x.nShader := by
    rcases Nat.eq_zero_or_pos x.nShader with hzero | hpos
    · rw [hzero, Nat.zero_mod] at hoffset
      exact absurd rfl hoffset
    · exact hpos
  have hout : 0 ∈ x.outputsFrom 0 := by
    rw [mem_outputsFrom_zero]
    unfold Xbar.activeOutBufferBase Xbar.activeOutBuffers
    rw [hreply]
    exact ⟨Nat.le_refl _, by simpa using hshader⟩
  have htotal : x.totalNodes = x.nShader + x.nMem := rfl
  have ha : IsInput x x.nShader := by
    unfold IsInput
    rw [hbase, hinputs]
    omega
  have hb : IsInput x (x.nShader + d) := by
    unfold IsInput
    rw [hbase, hinputs]
    omega
  have hne : x.nShader ≠ x.nShader + d := by omega
  obtain ⟨p, hp⟩ : ∃ p : XbarPacket, p = ⟨1, 0, 1, 1⟩ := ⟨_, rfl⟩
  have hto : p.outputDeviceId = 0 := by rw [hp]
  have hrange : p.outputDeviceId < x.totalNodes := by omega
  have hroom : ∀ r : XbarRouter, (∀ output, (r.outBuffers output).length ≤ 1) → ∀ output,
      r.hasBufferOut x output 1 = true := by
    intro r hsmall output
    unfold hasBufferOut
    rw [decide_eq_true_iff]
    have hlen := hsmall output
    have hlimit := hx.buffers
    omega
  -- one packet from each of the two memories
  obtain ⟨r₁, hpush₁, hidle₁, hout₁, hocc₁, -, hqueue₁⟩ := push_reply (init x)
    x.nShader hreply hx.oneQueue (by omega) hrange
  obtain ⟨s, hpush₂, hidle₂, hout₂, -, hkeep₂, hqueue₂⟩ := push_reply r₁
    (x.nShader + d) hreply hx.oneQueue (by omega) hrange
  have hs : Reaches (step x) (fun _ _ => True) (init x) s :=
    .next (o := .push (x.nShader + d) p {})
      (.next (o := .push x.nShader p {}) .refl trivial hpush₁) trivial hpush₂
  have hs_count : s.grantCyclesCount = 1 := count_of_reaches hx hs hx.grantCycles
  have hs_node : s.nextNode 0 = 0 := by
    rw [hidle₂.nextNode, hidle₁.nextNode]
    rfl
  have hs_out : s.outBuffers = fun _ => [] := by
    rw [hout₂, hout₁]
    rfl
  have hqueues : ∀ i, s.inBuffers i 0 =
      if i = x.nShader then [p] else if i = x.nShader + d then [p] else [] := by
    intro i
    rw [hqueue₂, hqueue₁]
    rcases eq_or_ne i x.nShader with rfl | hi
    · rw [if_neg hne, if_pos rfl, if_pos rfl]
      rfl
    · rw [if_neg hi, if_neg hi]
      rfl
  have hsmall : ∀ r : XbarRouter, (∀ i, r.inBuffers i 0 =
      if i = x.nShader then [p] else if i = x.nShader + d then [p] else []) →
      Asks x r 0 x.nShader ∧ Asks x r 0 (x.nShader + d) := by
    intro r hq
    rw [asks_iff hx.oneQueue, asks_iff hx.oneQueue]
    refine ⟨⟨p, [], by rw [hq, if_pos rfl], hto⟩, ⟨p, [], ?_, hto⟩⟩
    rw [hq, if_neg hne.symm, if_pos rfl]
  have hfirst : TwoInputs x s 0 x.nShader (x.nShader + d) p p := by
    refine ⟨ha, hb, hne, hout, hqueues, hto, hto, ?_, ⟨by omega, by omega⟩, ?_, ?_⟩
    · rw [hkeep₂ _ hne]
      exact hocc₁
    · exact hroom s (by simp [hs_out]) 0
    · rw [hs_node, hbase, hinputs, Nat.sub_self, Nat.add_sub_cancel_left]
      unfold ahead
      rw [Nat.zero_mod, Nat.sub_zero, Nat.zero_add, Nat.mod_self, Nat.add_mod_right,
        Nat.mod_eq_of_lt hdlt]
      omega
  obtain ⟨r₃, hadvance₁, hgrants₁, hqueue₃, hnode₃, hout₃⟩ := hfirst.advance hx hs_count
  -- the granted memory sends again
  obtain ⟨r₄, hpush₄, hidle₄, hout₄, hocc₄, -, hqueue₄⟩ := push_reply r₃
    x.nShader hreply hx.oneQueue (by omega) hrange
  have hqueues₄ : ∀ i, r₄.inBuffers i 0 =
      if i = x.nShader then [p] else if i = x.nShader + d then [p] else [] := by
    intro i
    rw [hqueue₄, hqueue₃]
    rcases eq_or_ne i x.nShader with rfl | hi
    · rw [if_neg hne, if_pos rfl, if_pos rfl]
      rfl
    · rw [if_neg hi, if_neg hi]
  have hroom₄ : ∀ output, r₄.hasBufferOut x output 1 = true := by
    apply hroom
    intro output
    rw [hout₄, hout₃, hs_out]
    rcases eq_or_ne output 0 with rfl | ho
    · rw [Function.update_self]
      exact Nat.le_refl _
    · rw [Function.update_of_ne ho]
      exact Nat.zero_le _
  have hsecond : TwoInputs x r₄ 0 x.nShader (x.nShader + d) p p := by
    refine ⟨ha, hb, hne, hout, hqueues₄, hto, hto, hocc₄, ⟨by omega, by omega⟩, hroom₄ 0, ?_⟩
    have hpointer : r₄.nextNode 0 = (d + 1) % x.nMem := by
      rw [hidle₄.nextNode, hnode₃, hinputs, ← hd, Nat.mod_add_mod]
    rw [hpointer, hbase, hinputs, Nat.sub_self, Nat.add_sub_cancel_left]
    exact ahead_lt_granted hdlt hmem (by omega)
  have hcontest₃ : Contest x 0 x.nShader (x.nShader + d) s r₃ :=
    .next (o := .advance) .refl
      (fun _ => ⟨(hsmall s hqueues).1, (hsmall s hqueues).2, hroom s (by simp [hs_out])⟩)
      ((hx.advance s).trans hadvance₁)
  have hcontest₄ : Contest x 0 x.nShader (x.nShader + d) s r₄ :=
    .next (o := .push x.nShader p {}) hcontest₃ (fun h => (by cases h)) hpush₄
  have hcount₄ : r₄.grantCyclesCount = 1 := count_of_reaches hx hcontest₄ hs_count
  obtain ⟨t, hadvance₂, hgrants₂, -, -, -⟩ := hsecond.advance hx hcount₄
  have hcontest : Contest x 0 x.nShader (x.nShader + d) s t :=
    .next (o := .advance) hcontest₄
      (fun _ => ⟨(hsmall r₄ hqueues₄).1, (hsmall r₄ hqueues₄).2, hroom₄⟩)
      ((hx.advance r₄).trans hadvance₂)
  have hgrants : t.grants = s.grants ++ [(x.nShader, 0), (x.nShader, 0)] := by
    rw [hgrants₂, hidle₄.grants, hgrants₁, List.append_assoc]
    rfl
  have hbetween := (hfair s hs 0).1 x.nShader (x.nShader + d) ha hb hne t _ hcontest hgrants
    [] [] [] rfl
  cases hbetween

/-- A router is fair exactly when it is the request network, or the number of shaders is a
multiple of the number of memories. -/
theorem islip_fair_iff (hx : PlainIslip x) :
    Fair x ↔ x.routerType = .reqNet ∨ x.nMem ∣ x.nShader ∨ x.nMem = 0 := by
  have hrequest : x.isRequest = true ↔ x.routerType = .reqNet := by
    unfold Xbar.isRequest
    rw [beq_iff_eq]
  constructor
  · intro hfair
    rcases Bool.eq_false_or_eq_true x.isRequest with hreq | hreply
    · exact .inl (hrequest.mp hreq)
    · rcases Nat.eq_zero_or_pos x.nMem with hzero | hpos
      · exact .inr (.inr hzero)
      · refine .inr (.inl (Nat.dvd_of_mod_eq_zero ?_))
        by_contra hoffset
        exact not_fair_of_offset hx hreply hpos hoffset hfair
  · intro hcond
    by_cases hreq : x.isRequest = true
    · apply fair_of_base hx
      unfold Xbar.activeInBufferBase
      rw [if_pos hreq, Nat.zero_mod]
    · have hbase : x.activeInBufferBase = x.nShader := if_neg hreq
      have hinputs : x.activeInBuffers = x.nMem := if_neg hreq
      rcases hcond with htype | hdvd | hzero
      · exact absurd (hrequest.mpr htype) hreq
      · apply fair_of_base hx
        rw [hbase, hinputs]
        exact Nat.mod_eq_zero_of_dvd hdvd
      · exact fair_of_no_inputs hx (hinputs.trans hzero)

/-- The reply network of two shaders and three memories. -/
def reply23 : Xbar := { routerType := .replyNet, nShader := 2, nMem := 3, config := {} }

theorem reply23_plain : PlainIslip reply23 := ⟨rfl, rfl, rfl, rfl, rfl, by decide⟩

theorem islip_fair_iff_witness : Fair { reply23 with nShader := 6 } :=
  (islip_fair_iff ⟨rfl, rfl, rfl, rfl, rfl, by decide⟩).mpr (.inr (.inl (by decide)))

/-- The first of the three memories is granted twice while the third one asks. -/
theorem islip_fair_iff_counterexample : ¬ ∀ x, PlainIslip x → Fair x := fun hall =>
  not_fair_of_offset reply23_plain rfl (by decide) (by decide) (hall reply23 reply23_plain)

end XbarRouter

end FlashGpuSim
