import FlashGpuSim.Interconnect.XbarRouter
import FlashGpuSim.Lib.Reach
import FlashGpuSim.Lib.Holdings

/-!
The items of a crossbar router. Those that were pushed and not popped are in the queues, among the
waiters of a group of merged requests, or among the deliveries of a multicast response; the master
of a group or of deliveries is still in transit.
-/

namespace FlashGpuSim

open Lib

/-- An item, with the output it goes to. -/
def XbarPacket.item (packet : XbarPacket) : Nat × Nat := (packet.data, packet.outputDeviceId)

namespace XbarRouter

variable {x : Xbar} {home : Nat → Nat} {r r' : XbarRouter} {input output : Nat}

def queuesPerInput (x : Xbar) : Nat := if x.config.useVoq then x.totalNodes else 1

theorem inputQueueIndex_lt (hout : output < x.totalNodes) :
    x.inputQueueIndex output < queuesPerInput x := by
  unfold Xbar.inputQueueIndex queuesPerInput
  split
  · exact hout
  · exact Nat.zero_lt_one

/-- What the input queues hold. -/
def heldIn (x : Xbar) (buffers : Nat → Nat → List XbarPacket) : Multiset (Nat × Nat) :=
  ∑ i ∈ Finset.range x.totalNodes, held XbarPacket.item (queuesPerInput x) (buffers i)

/-- What is between the inputs and the outputs. -/
def transit (x : Xbar) (r : XbarRouter) : Multiset (Nat × Nat) :=
  heldIn x r.inBuffers + held XbarPacket.item x.totalNodes r.outBuffers

/-- The waiters of the groups. The requests of one sector go to one output, its `home`. -/
def waiting (home : Nat → Nat) (r : XbarRouter) : Multiset (Nat × Nat) :=
  Table.holdings (fun _ group => (group.waiters.map fun w => (w, home group.address) :
    List (Nat × Nat))) r.tmaMulticastGroups.groups

/-- The deliveries that wait for their master. -/
def pending (r : XbarRouter) : Multiset (Nat × Nat) :=
  Table.holdings (fun _ packets => (packets.map XbarPacket.item : List (Nat × Nat)))
    r.tmaResponseMulticastDeliveries

def delivered (x : Xbar) (r : XbarRouter) : Multiset (Nat × Nat) :=
  held XbarPacket.item x.totalNodes r.multicastDeliveryBuffers

def resident (x : Xbar) (home : Nat → Nat) (r : XbarRouter) : Multiset (Nat × Nat) :=
  transit x r + delivered x r + waiting home r + pending r

/-- The items of a router, and where they are. -/
structure Kept (x : Xbar) (home : Nat → Nat) (r : XbarRouter) : Prop where
  conserved : (r.pushed : Multiset (Nat × Nat)) = r.popped + resident x home r
  distinct : (r.pushed.map Prod.fst).Nodup
  occupied : ∀ i, r.inBufferOccupancy i =
    ∑ q ∈ Finset.range (queuesPerInput x), (r.inBuffers i q).length
  outPlaced : ∀ output, ∀ p ∈ r.outBuffers output, p.outputDeviceId = output
  deliveryPlaced : ∀ output, ∀ p ∈ r.multicastDeliveryBuffers output, p.outputDeviceId = output
  pendingPlaced : ∀ d packets, r.tmaResponseMulticastDeliveries.lookup d = some packets →
    ∀ p ∈ packets, p.outputDeviceId < x.totalNodes
  groupMaster : ∀ m group, r.tmaMulticastGroups.groups.lookup m = some group →
    (m, home group.address) ∈ transit x r
  active : ∀ address m, r.tmaMulticastGroups.activeMaster.lookup address = some m →
    ∃ group, r.tmaMulticastGroups.groups.lookup m = some group ∧ group.address = address
  deliveryMaster : ∀ d packets, r.tmaResponseMulticastDeliveries.lookup d = some packets →
    ∃ output, (d, output) ∈ transit x r
  noGroups : x.tmaRequestMulticast = false → ∀ m, r.tmaMulticastGroups.groups.lookup m = none
  noDeliveries : x.tmaResponseMulticast = false →
    ∀ d, r.tmaResponseMulticastDeliveries.lookup d = none

/-- The arbitration state and the budgets hold no item. -/
theorem Kept.congr (h : Kept x home r) (hin : r'.inBuffers = r.inBuffers)
    (hocc : r'.inBufferOccupancy = r.inBufferOccupancy) (hout : r'.outBuffers = r.outBuffers)
    (hdelivery : r'.multicastDeliveryBuffers = r.multicastDeliveryBuffers)
    (hgroups : r'.tmaMulticastGroups = r.tmaMulticastGroups)
    (hdeliveries : r'.tmaResponseMulticastDeliveries = r.tmaResponseMulticastDeliveries)
    (hpushed : r'.pushed = r.pushed) (hpopped : r'.popped = r.popped) : Kept x home r' := by
  have htransit : transit x r' = transit x r := by
    unfold transit
    rw [hin, hout]
  have hresident : resident x home r' = resident x home r := by
    unfold resident delivered waiting pending
    rw [htransit, hdelivery, hgroups, hdeliveries]
  constructor
  · rw [hpushed, hpopped, hresident]
    exact h.conserved
  · rw [hpushed]
    exact h.distinct
  · rw [hocc, hin]
    exact h.occupied
  · rw [hout]
    exact h.outPlaced
  · rw [hdelivery]
    exact h.deliveryPlaced
  · rw [hdeliveries]
    exact h.pendingPlaced
  · rw [hgroups, htransit]
    exact h.groupMaster
  · rw [hgroups]
    exact h.active
  · rw [hdeliveries, htransit]
    exact h.deliveryMaster
  · rw [hgroups]
    exact h.noGroups
  · rw [hdeliveries]
    exact h.noDeliveries

theorem heldIn_update (buffers : Nat → Nat → List XbarPacket) {q : Nat}
    (hin : input < x.totalNodes) (hq : q < queuesPerInput x) (queue : List XbarPacket) :
    heldIn x (Function.update buffers input (Function.update (buffers input) q queue)) +
        ((buffers input q).map XbarPacket.item : Multiset (Nat × Nat)) =
      heldIn x buffers + (queue.map XbarPacket.item : Multiset (Nat × Nat)) := by
  have hsum := sum_range_update (held XbarPacket.item (queuesPerInput x)) buffers hin
    (Function.update (buffers input) q queue)
  have hqueue := held_update XbarPacket.item (buffers input) hq queue
  have hfull : heldIn x (Function.update buffers input (Function.update (buffers input) q queue)) +
      (held XbarPacket.item (queuesPerInput x) (buffers input) +
        ((buffers input q).map XbarPacket.item : Multiset (Nat × Nat))) =
      heldIn x buffers + (held XbarPacket.item (queuesPerInput x) (buffers input) +
        (queue.map XbarPacket.item : Multiset (Nat × Nat))) := by
    rw [← hqueue, ← add_assoc, ← add_assoc]
    exact congrArg (· + _) hsum
  rw [add_left_comm, add_left_comm (heldIn x buffers)] at hfull
  exact add_left_cancel hfull

/-- The lengths of the queues of an input after one of them was replaced. -/
theorem length_update (buffers : Nat → List XbarPacket) {q : Nat} (hq : q < queuesPerInput x)
    (queue : List XbarPacket) :
    ∑ k ∈ Finset.range (queuesPerInput x), (Function.update buffers q queue k).length +
        (buffers q).length =
      ∑ k ∈ Finset.range (queuesPerInput x), (buffers k).length + queue.length :=
  sum_range_update List.length buffers hq queue

/-- The head of an input queue is in transit before and after its transfer. -/
theorem transit_moveHead {packet : XbarPacket} {rest : List XbarPacket}
    (hin : input < x.totalNodes) (hout : output < x.totalNodes)
    (hqueue : r.inBuffers input (x.inputQueueIndex output) = packet :: rest) :
    transit x (r.moveHead x input output packet rest) = transit x r := by
  have hleave := heldIn_update r.inBuffers hin (inputQueueIndex_lt hout) rest
  rw [hqueue, List.map_cons, ← Multiset.cons_coe, ← Multiset.singleton_add, ← add_assoc] at hleave
  have hleave := add_right_cancel hleave
  have henter := held_append XbarPacket.item r.outBuffers hout [packet]
  unfold transit moveHead
  dsimp only
  rw [henter, ← hleave, List.map_singleton, Multiset.coe_singleton]
  abel

theorem Kept.moveHead (h : Kept x home r) {packet : XbarPacket} {rest : List XbarPacket}
    (hin : input < x.totalNodes) (hout : output < x.totalNodes)
    (hqueue : r.inBuffers input (x.inputQueueIndex output) = packet :: rest)
    (hpacket : packet.outputDeviceId = output) :
    Kept x home (r.moveHead x input output packet rest) := by
  have htransit := transit_moveHead hin hout hqueue
  have hresident : resident x home (r.moveHead x input output packet rest) =
      resident x home r := by
    unfold resident
    rw [htransit]
    rfl
  constructor
  · rw [hresident]
    exact h.conserved
  · exact h.distinct
  · intro i
    unfold XbarRouter.moveHead
    dsimp only
    rcases eq_or_ne i input with rfl | hne
    · rw [Function.update_self, Function.update_self]
      have hlen := length_update (r.inBuffers i) (inputQueueIndex_lt hout) rest
      rw [hqueue, List.length_cons] at hlen
      have hocc := h.occupied i
      omega
    · rw [Function.update_of_ne hne, Function.update_of_ne hne]
      exact h.occupied i
  · intro o p hp
    unfold XbarRouter.moveHead at hp
    dsimp only at hp
    rcases eq_or_ne o output with rfl | hne
    · rw [Function.update_self, List.mem_append, List.mem_singleton] at hp
      rcases hp with hp | rfl
      · exact h.outPlaced o p hp
      · exact hpacket
    · rw [Function.update_of_ne hne] at hp
      exact h.outPlaced o p hp
  · exact h.deliveryPlaced
  · exact h.pendingPlaced
  · intro m group hgroup
    rw [htransit]
    exact h.groupMaster m group hgroup
  · exact h.active
  · intro d packets hpackets
    rw [htransit]
    exact h.deliveryMaster d packets hpackets
  · exact h.noGroups
  · exact h.noDeliveries

/-- Two items in transit with one data pointer go to one output. -/
theorem Kept.unique (h : Kept x home r) {d a b : Nat} (ha : (d, a) ∈ transit x r)
    (hb : (d, b) ∈ transit x r) : a = b := by
  have hpushed : ∀ item ∈ transit x r, item ∈ r.pushed := by
    intro item hitem
    rw [← Multiset.mem_coe, h.conserved]
    unfold resident
    simp only [Multiset.mem_add]
    exact .inr (.inl (.inl (.inl hitem)))
  exact congrArg Prod.snd (List.inj_on_of_nodup_map h.distinct (hpushed _ ha) (hpushed _ hb) rfl)

/-- Deliveries enter the buffers of their outputs; those that stay wait for their master. -/
theorem Kept.deliver (h : Kept x home r) {d : Nat} {packets out : List XbarPacket}
    (kept : List XbarPacket)
    {deliveries : Table (List XbarPacket)}
    (hlookup : r.tmaResponseMulticastDeliveries.lookup d = some packets)
    (hsplit : (out ++ kept).Perm packets)
    (hdeliveries : (deliveries = r.tmaResponseMulticastDeliveries.erase d ∧ kept = []) ∨
      deliveries = r.tmaResponseMulticastDeliveries.insert d kept) :
    Kept x home { r.deliver out with tmaResponseMulticastDeliveries := deliveries } := by
  have hplaced : ∀ p ∈ out, p.outputDeviceId < x.totalNodes := fun p hp =>
    h.pendingPlaced d packets hlookup p (hsplit.subset (List.mem_append_left _ hp))
  have hlook : ∀ d' packets', deliveries.lookup d' = some packets' →
      ∃ old, r.tmaResponseMulticastDeliveries.lookup d' = some old ∧ packets' ⊆ old := by
    intro d' packets' hd'
    rcases hdeliveries with ⟨rfl, -⟩ | rfl
    · rw [Table.lookup_erase] at hd'
      split at hd'
      · cases hd'
      · exact ⟨packets', hd', List.Subset.refl _⟩
    · rw [Table.lookup_insert] at hd'
      split at hd'
      · rename_i heq
        cases hd'
        rw [heq]
        exact ⟨packets, hlookup, fun p hp => hsplit.subset (List.mem_append_right _ hp)⟩
      · exact ⟨packets', hd', List.Subset.refl _⟩
  have hpending : pending { r.deliver out with tmaResponseMulticastDeliveries := deliveries } +
      (packets.map XbarPacket.item : Multiset (Nat × Nat)) =
        pending r + (kept.map XbarPacket.item : Multiset (Nat × Nat)) := by
    rcases hdeliveries with ⟨rfl, rfl⟩ | rfl
    · have hsum := Table.holdings_erase (f := fun _ packets => (packets.map XbarPacket.item :
        Multiset (Nat × Nat))) hlookup
      rw [List.map_nil, Multiset.coe_nil, add_zero]
      exact hsum
    · exact Table.holdings_insert (f := fun _ packets => (packets.map XbarPacket.item :
        Multiset (Nat × Nat))) hlookup
  have hparts : (packets.map XbarPacket.item : Multiset (Nat × Nat)) =
      (out.map XbarPacket.item : Multiset (Nat × Nat)) +
        (kept.map XbarPacket.item : Multiset (Nat × Nat)) := by
    rw [Multiset.coe_add, ← List.map_append, Multiset.coe_eq_coe]
    exact (hsplit.map _).symm
  rw [hparts, ← add_assoc] at hpending
  have hpending := add_right_cancel hpending
  have hdelivered : delivered x { r.deliver out with
      tmaResponseMulticastDeliveries := deliveries } =
        delivered x r + (out.map XbarPacket.item : Multiset (Nat × Nat)) :=
    held_spread XbarPacket.outputDeviceId hplaced
  have hresident : resident x home { r.deliver out with
      tmaResponseMulticastDeliveries := deliveries } = resident x home r := by
    unfold resident
    rw [hdelivered, ← hpending]
    have htransit : transit x { r.deliver out with
      tmaResponseMulticastDeliveries := deliveries } = transit x r := rfl
    have hwaiting : waiting home { r.deliver out with
      tmaResponseMulticastDeliveries := deliveries } = waiting home r := rfl
    rw [htransit, hwaiting]
    abel
  constructor
  · rw [hresident]
    exact h.conserved
  · exact h.distinct
  · exact h.occupied
  · exact h.outPlaced
  · intro o p hp
    rcases List.mem_append.mp hp with hp | hp
    · exact h.deliveryPlaced o p hp
    · exact of_decide_eq_true (List.mem_filter.mp hp).2
  · intro d' packets' hd' p hp
    obtain ⟨old, hold, hsub⟩ := hlook d' packets' hd'
    exact h.pendingPlaced d' old hold p (hsub hp)
  · exact h.groupMaster
  · exact h.active
  · intro d' packets' hd'
    obtain ⟨old, hold, -⟩ := hlook d' packets' hd'
    exact h.deliveryMaster d' old hold
  · exact h.noGroups
  · intro hoff d'
    cases hd' : deliveries.lookup d' with
    | none => rfl
    | some packets' =>
      obtain ⟨old, hold, -⟩ := hlook d' packets' hd'
      rw [h.noDeliveries hoff d'] at hold
      cases hold

theorem Kept.splitDeliveries (h : Kept x home r) (packet : XbarPacket) :
    Kept x home (r.splitDeliveries x output packet) := by
  unfold XbarRouter.splitDeliveries
  split
  · split
    · exact h
    · rename_i packets hlookup
      refine h.deliver (packets.filter fun p => p.outputDeviceId = output) hlookup ?_ ?_
      · have hperm := List.filter_append_perm (fun p : XbarPacket => decide (p.outputDeviceId ≠ output))
          packets
        simpa using hperm
      · split
        · rename_i hempty
          exact .inl ⟨rfl, List.isEmpty_iff.mp hempty⟩
        · exact .inr rfl
  · exact h

theorem Kept.transferPacket (h : Kept x home r) (hok : r.transferPacket x input output = .ok r') :
    Kept x home r' := by
  obtain ⟨hin, hout, packet, rest, hqueue, -, hpacket, rfl⟩ := transferPacket_ok hok
  exact (h.moveHead hin hout hqueue hpacket).splitDeliveries packet

/-- No deliveries wait for a popped response master. -/
theorem Kept.closeResponse (h : Kept x home r) (packet : XbarPacket) :
    Kept x home (r.closeResponse x packet) ∧
      (r.closeResponse x packet).tmaResponseMulticastDeliveries.lookup packet.data = none := by
  unfold XbarRouter.closeResponse
  split
  · split
    · rename_i hnone
      exact ⟨h, hnone⟩
    · rename_i packets hlookup
      refine ⟨h.deliver [] hlookup (by simp) (.inl ⟨rfl, rfl⟩), ?_⟩
      rw [Table.lookup_erase, if_pos rfl]
  · rename_i hoff
    exact ⟨h, h.noDeliveries (by simpa using hoff) _⟩

/-- No group waits for a popped request master. -/
theorem Kept.closeRequest (h : Kept x home r) {packet : XbarPacket} (hout : output < x.totalNodes)
    (htransit : (packet.data, output) ∈ transit x r) (hplaced : packet.outputDeviceId = output) :
    Kept x home (r.closeRequest x output packet) ∧
      (r.closeRequest x output packet).tmaMulticastGroups.groups.lookup packet.data = none := by
  unfold XbarRouter.closeRequest MulticastGroupTracker.closeMaster
  split
  · rename_i hon
    cases hlookup : r.tmaMulticastGroups.groups.lookup packet.data with
    | none =>
      dsimp only
      refine ⟨h.congr rfl rfl rfl ?_ rfl rfl rfl rfl, hlookup⟩
      rw [List.map_nil, List.append_nil, Function.update_eq_self]
    | some group =>
      dsimp only
      have hhome : home group.address = output :=
        h.unique (h.groupMaster _ group hlookup) htransit
      refine ⟨?_, by rw [Table.lookup_erase, if_pos rfl]⟩
      have hlook : ∀ m g, (r.tmaMulticastGroups.groups.erase packet.data).lookup m = some g →
          m ≠ packet.data ∧ r.tmaMulticastGroups.groups.lookup m = some g := by
        intro m g hm
        rw [Table.lookup_erase] at hm
        split at hm
        · cases hm
        · rename_i hne
          exact ⟨hne, hm⟩
      have hwaiters : ((group.waiters.map fun w => ({ packet with data := w } : XbarPacket)).map
          XbarPacket.item) = group.waiters.map fun w => (w, home group.address) := by
        rw [List.map_map]
        refine List.map_congr_left fun w _ => ?_
        unfold XbarPacket.item
        rw [Function.comp_apply, hhome, hplaced]
      have hdelivered := held_append XbarPacket.item r.multicastDeliveryBuffers
        hout (group.waiters.map fun w => ({ packet with data := w } : XbarPacket))
      rw [hwaiters] at hdelivered
      have hgroups := Table.holdings_erase (f := fun _ group => ((group.waiters.map fun w =>
        (w, home group.address) : List (Nat × Nat)) : Multiset (Nat × Nat))) hlookup
      have hsame : ∀ s : XbarRouter, s.inBuffers = r.inBuffers → s.outBuffers = r.outBuffers →
          s.multicastDeliveryBuffers = Function.update r.multicastDeliveryBuffers output
            (r.multicastDeliveryBuffers output ++
              group.waiters.map fun w => ({ packet with data := w } : XbarPacket)) →
          s.tmaMulticastGroups.groups = r.tmaMulticastGroups.groups.erase packet.data →
          s.tmaResponseMulticastDeliveries = r.tmaResponseMulticastDeliveries →
          s.pushed = r.pushed → s.popped = r.popped →
          (s.pushed : Multiset (Nat × Nat)) = s.popped + resident x home s := by
        intro s h1 h2 h3 h4 h5 h6 h7
        rw [h6, h7, h.conserved]
        unfold resident transit delivered waiting pending
        rw [h1, h2, h3, h4, h5, hdelivered, ← hgroups]
        abel
      constructor
      · exact hsame _ rfl rfl rfl rfl rfl rfl rfl
      · exact h.distinct
      · exact h.occupied
      · exact h.outPlaced
      · intro o p hp
        dsimp only at hp
        rcases eq_or_ne o output with rfl | hne
        · rw [Function.update_self, List.mem_append, List.mem_map] at hp
          rcases hp with hp | ⟨w, -, rfl⟩
          · exact h.deliveryPlaced o p hp
          · exact hplaced
        · rw [Function.update_of_ne hne] at hp
          exact h.deliveryPlaced o p hp
      · exact h.pendingPlaced
      · intro m g hm
        exact h.groupMaster m g (hlook m g hm).2
      · intro address m hactive
        have hold : r.tmaMulticastGroups.activeMaster.lookup address = some m ∧
            m ≠ packet.data := by
          dsimp only at hactive
          split at hactive
          · rename_i hclosed
            rw [Table.lookup_erase] at hactive
            split at hactive
            · cases hactive
            · rename_i hne
              refine ⟨hactive, ?_⟩
              rintro rfl
              obtain ⟨g, hg, haddress⟩ := h.active address _ hactive
              rw [hlookup] at hg
              cases hg
              exact hne haddress.symm
          · rename_i hopen
            refine ⟨hactive, ?_⟩
            rintro rfl
            obtain ⟨g, hg, haddress⟩ := h.active address _ hactive
            rw [hlookup] at hg
            cases hg
            rw [haddress] at hopen
            exact hopen hactive
        obtain ⟨g, hg, haddress⟩ := h.active address m hold.1
        refine ⟨g, ?_, haddress⟩
        rw [Table.lookup_erase, if_neg hold.2]
        exact hg
      · exact h.deliveryMaster
      · intro hoff
        rw [hon] at hoff
        cases hoff
      · exact h.noDeliveries
  · rename_i hoff
    exact ⟨h, h.noGroups (by simpa using hoff) _⟩

/-- A packet that nothing waits for leaves its output. -/
theorem Kept.leave (h : Kept x home r) {packet : XbarPacket} {rest : List XbarPacket}
    (hout : output < x.totalNodes) (hqueue : r.outBuffers output = packet :: rest)
    (hgroup : r.tmaMulticastGroups.groups.lookup packet.data = none)
    (hdelivery : r.tmaResponseMulticastDeliveries.lookup packet.data = none) :
    Kept x home { r with
      outBuffers := Function.update r.outBuffers output rest
      popped := r.popped ++ [(packet.data, output)] } := by
  have hplaced : packet.outputDeviceId = output :=
    h.outPlaced output packet (by rw [hqueue]; exact List.mem_cons_self)
  have htail := held_tail XbarPacket.item r.outBuffers hout hqueue
  have hitem : packet.item = (packet.data, output) := by
    unfold XbarPacket.item
    rw [hplaced]
  obtain ⟨s, hs⟩ : ∃ s : XbarRouter, s = { r with
      outBuffers := Function.update r.outBuffers output rest
      popped := r.popped ++ [(packet.data, output)] } := ⟨_, rfl⟩
  have htransit : transit x s + {(packet.data, output)} = transit x r := by
    unfold transit
    rw [← htail, hitem, hs, add_assoc]
  have hstay : ∀ m o, m ≠ packet.data → (m, o) ∈ transit x r → (m, o) ∈ transit x s := by
    intro m o hne hin
    rw [← htransit, Multiset.mem_add, Multiset.mem_singleton] at hin
    rcases hin with hin | heq
    · exact hin
    · cases heq
      exact absurd rfl hne
  rw [← hs]
  constructor
  · have hpopped : s.popped = r.popped ++ [(packet.data, output)] := by rw [hs]
    have hpushed : s.pushed = r.pushed := by rw [hs]
    have hrest : delivered x s = delivered x r ∧ waiting home s = waiting home r ∧
        pending s = pending r := by
      rw [hs]
      exact ⟨rfl, rfl, rfl⟩
    rw [hpushed, hpopped, h.conserved]
    unfold resident
    rw [hrest.1, hrest.2.1, hrest.2.2, ← htransit, ← Multiset.coe_add, Multiset.coe_singleton]
    abel
  · rw [hs]
    exact h.distinct
  · rw [hs]
    exact h.occupied
  · rw [hs]
    intro o p hp
    dsimp only at hp
    rcases eq_or_ne o output with rfl | hne
    · rw [Function.update_self] at hp
      exact h.outPlaced o p (by rw [hqueue]; exact List.mem_cons_of_mem _ hp)
    · rw [Function.update_of_ne hne] at hp
      exact h.outPlaced o p hp
  · rw [hs]
    exact h.deliveryPlaced
  · rw [hs]
    exact h.pendingPlaced
  · intro m group hm
    have hm : r.tmaMulticastGroups.groups.lookup m = some group := by
      rw [hs] at hm
      exact hm
    refine hstay m _ ?_ (h.groupMaster m group hm)
    rintro rfl
    rw [hgroup] at hm
    cases hm
  · rw [hs]
    exact h.active
  · intro d packets hd
    have hd : r.tmaResponseMulticastDeliveries.lookup d = some packets := by
      rw [hs] at hd
      exact hd
    obtain ⟨o, ho⟩ := h.deliveryMaster d packets hd
    refine ⟨o, hstay d o ?_ ho⟩
    rintro rfl
    rw [hdelivery] at hd
    cases hd
  · rw [hs]
    exact h.noGroups
  · rw [hs]
    exact h.noDeliveries

/-- A delivered packet leaves its output. -/
theorem Kept.leaveDelivery (h : Kept x home r) {packet : XbarPacket} {rest : List XbarPacket}
    (hout : output < x.totalNodes)
    (hqueue : r.multicastDeliveryBuffers output = packet :: rest) :
    Kept x home { r with
      multicastDeliveryBuffers := Function.update r.multicastDeliveryBuffers output rest
      popped := r.popped ++ [(packet.data, output)] } := by
  have hplaced : packet.outputDeviceId = output :=
    h.deliveryPlaced output packet (by rw [hqueue]; exact List.mem_cons_self)
  have htail := held_tail XbarPacket.item r.multicastDeliveryBuffers hout hqueue
  have hitem : packet.item = (packet.data, output) := by
    unfold XbarPacket.item
    rw [hplaced]
  have hsame : ∀ s : XbarRouter, s.inBuffers = r.inBuffers → s.outBuffers = r.outBuffers →
      s.multicastDeliveryBuffers = Function.update r.multicastDeliveryBuffers output rest →
      s.tmaMulticastGroups = r.tmaMulticastGroups →
      s.tmaResponseMulticastDeliveries = r.tmaResponseMulticastDeliveries →
      s.pushed = r.pushed → s.popped = r.popped ++ [(packet.data, output)] →
      (s.pushed : Multiset (Nat × Nat)) = s.popped + resident x home s := by
    intro s h1 h2 h3 h4 h5 h6 h7
    rw [h6, h7, h.conserved]
    unfold resident transit delivered waiting pending
    rw [h1, h2, h3, h4, h5, ← htail, hitem, ← Multiset.coe_add, Multiset.coe_singleton]
    abel
  constructor
  · exact hsame _ rfl rfl rfl rfl rfl rfl rfl
  · exact h.distinct
  · exact h.occupied
  · exact h.outPlaced
  · intro o p hp
    dsimp only at hp
    rcases eq_or_ne o output with rfl | hne
    · rw [Function.update_self] at hp
      exact h.deliveryPlaced o p (by rw [hqueue]; exact List.mem_cons_of_mem _ hp)
    · rw [Function.update_of_ne hne] at hp
      exact h.deliveryPlaced o p hp
  · exact h.pendingPlaced
  · exact h.groupMaster
  · exact h.active
  · exact h.deliveryMaster
  · exact h.noGroups
  · exact h.noDeliveries

theorem closeRequest_commutes (x : Xbar) (r : XbarRouter) (output : Nat) (packet : XbarPacket)
    (buffers : Nat → List XbarPacket) :
    closeRequest x { r with outBuffers := buffers } output packet =
      { closeRequest x r output packet with outBuffers := buffers } := by
  unfold closeRequest
  split
  · rfl
  · rfl

theorem closeResponse_commutes (x : Xbar) (r : XbarRouter) (packet : XbarPacket)
    (buffers : Nat → List XbarPacket) :
    closeResponse x { r with outBuffers := buffers } packet =
      { closeResponse x r packet with outBuffers := buffers } := by
  unfold closeResponse
  split
  · dsimp only
    split
    · rfl
    · rfl
  · rfl

theorem close_frame (x : Xbar) (r : XbarRouter) (output : Nat) (packet : XbarPacket) :
    ((closeRequest x r output packet).closeResponse x packet).outBuffers = r.outBuffers ∧
    (closeRequest x r output packet).inBuffers = r.inBuffers ∧
    ((closeRequest x r output packet).closeResponse x packet).tmaMulticastGroups =
      (closeRequest x r output packet).tmaMulticastGroups := by
  have hrequest : (closeRequest x r output packet).outBuffers = r.outBuffers ∧
      (closeRequest x r output packet).inBuffers = r.inBuffers := by
    unfold closeRequest
    split
    · exact ⟨rfl, rfl⟩
    · exact ⟨rfl, rfl⟩
  refine ⟨?_, hrequest.2, ?_⟩
  · rw [← hrequest.1]
    unfold closeResponse
    split
    · split
      · rfl
      · rfl
    · rfl
  · unfold closeResponse
    split
    · split
      · rfl
      · rfl
    · rfl

theorem Kept.pop (h : Kept x home r) {data : Option Nat}
    (hok : r.pop x output = .ok (data, r')) : Kept x home r' := by
  obtain ⟨_, hout, hok⟩ := bind_eq_ok hok
  have hout := require_ok hout
  dsimp only at hok
  split at hok
  · rename_i packet rest hdelivery
    split at hok
    · cases hok
      exact h.leaveDelivery hout hdelivery
    · rename_i hoff
      simp only [Bool.or_eq_true, not_or, Bool.not_eq_true] at hoff
      split at hok
      · cases hok
        exact h
      · rename_i hqueue
        cases hok
        exact h.leave hout hqueue (h.noGroups hoff.1 _) (h.noDeliveries hoff.2 _)
  · cases hok
    exact h
  · rename_i packet rest _ hqueue
    cases hok
    have htransit : (packet.data, output) ∈ transit x r := by
      unfold transit
      rw [Multiset.mem_add, mem_held (b := r.outBuffers)]
      refine .inr ⟨output, hout, packet, by rw [hqueue]; exact List.mem_cons_self, ?_⟩
      unfold XbarPacket.item
      rw [h.outPlaced output packet (by rw [hqueue]; exact List.mem_cons_self)]
    have hplaced : packet.outputDeviceId = output :=
      h.outPlaced output packet (by rw [hqueue]; exact List.mem_cons_self)
    obtain ⟨hrequest, hgroup⟩ := h.closeRequest hout htransit hplaced
    obtain ⟨hresponse, hdelivery⟩ := hrequest.closeResponse packet
    obtain ⟨hsame, -, htracker⟩ := close_frame x r output packet
    have hleave := hresponse.leave hout (by rw [hsame]; exact hqueue)
      (by rw [htracker]; exact hgroup) hdelivery
    rw [closeRequest_commutes, closeResponse_commutes]
    rw [hsame] at hleave
    exact hleave

/-- A new item enters the queue of its input. -/
theorem Kept.enqueue (h : Kept x home r) {packet : XbarPacket} (hin : input < x.totalNodes)
    (hout : packet.outputDeviceId < x.totalNodes)
    (hfresh : packet.data ∉ r.pushed.map Prod.fst) :
    Kept x home { r.enqueue x input packet with pushed := r.pushed ++ [packet.item] } ∧
      transit x { r.enqueue x input packet with pushed := r.pushed ++ [packet.item] } =
        transit x r + {packet.item} := by
  have henter := heldIn_update r.inBuffers hin (inputQueueIndex_lt hout)
    (r.inBuffers input (x.inputQueueIndex packet.outputDeviceId) ++ [packet])
  rw [List.map_append, ← Multiset.coe_add, add_left_comm, add_comm
    ((r.inBuffers input (x.inputQueueIndex packet.outputDeviceId)).map XbarPacket.item :
      Multiset (Nat × Nat))] at henter
  have henter := add_right_cancel henter
  have htransit : transit x { r.enqueue x input packet with pushed := r.pushed ++ [packet.item] } =
      transit x r + {packet.item} := by
    unfold transit XbarRouter.enqueue
    dsimp only
    rw [henter, List.map_singleton, Multiset.coe_singleton]
    abel
  refine ⟨?_, htransit⟩
  constructor
  · have hpushed : ({ r.enqueue x input packet with pushed := r.pushed ++ [packet.item] } :
        XbarRouter).pushed = r.pushed ++ [packet.item] := rfl
    rw [hpushed, ← Multiset.coe_add, h.conserved, Multiset.coe_singleton]
    unfold resident
    rw [htransit]
    have hrest : ∀ s : XbarRouter, s = { r.enqueue x input packet with
        pushed := r.pushed ++ [packet.item] } → s.popped = r.popped ∧
        delivered x s = delivered x r ∧ waiting home s = waiting home r ∧
        pending s = pending r := by
      rintro s rfl
      exact ⟨rfl, rfl, rfl, rfl⟩
    obtain ⟨h1, h2, h3, h4⟩ := hrest _ rfl
    rw [h1, h2, h3, h4]
    abel
  · dsimp only
    rw [List.map_append, List.map_singleton, List.nodup_append]
    refine ⟨h.distinct, List.nodup_singleton _, fun a ha b hb heq => ?_⟩
    rw [List.mem_singleton.mp hb] at heq
    have hdata : a = packet.data := heq
    exact hfresh (hdata ▸ ha)
  · intro i
    unfold XbarRouter.enqueue
    dsimp only
    rcases eq_or_ne i input with rfl | hne
    · rw [Function.update_self, Function.update_self]
      have hlen := length_update (r.inBuffers i) (inputQueueIndex_lt hout)
        (r.inBuffers i (x.inputQueueIndex packet.outputDeviceId) ++ [packet])
      rw [List.length_append, List.length_singleton] at hlen
      have hocc := h.occupied i
      omega
    · rw [Function.update_of_ne hne, Function.update_of_ne hne]
      exact h.occupied i
  · exact h.outPlaced
  · exact h.deliveryPlaced
  · exact h.pendingPlaced
  · intro m group hm
    rw [htransit, Multiset.mem_add]
    exact .inl (h.groupMaster m group hm)
  · exact h.active
  · intro d packets hd
    obtain ⟨o, ho⟩ := h.deliveryMaster d packets hd
    exact ⟨o, by rw [htransit, Multiset.mem_add]; exact .inl ho⟩
  · exact h.noGroups
  · exact h.noDeliveries

/-- A pushed request opens a group of its own. -/
theorem Kept.openGroup (h : Kept x home r) {address m : Nat}
    (hon : x.tmaRequestMulticast = true) (hmaster : (m, home address) ∈ transit x r)
    (hnew : r.tmaMulticastGroups.groups.lookup m = none) :
    Kept x home { r with tmaMulticastGroups :=
      { activeMaster := r.tmaMulticastGroups.activeMaster.insert address m
        groups := r.tmaMulticastGroups.groups.insert m { address := address } } } := by
  have hgroups := Table.holdings_insert_new (x := ({ address := address } : MulticastGroup))
    (f := fun _ group => ((group.waiters.map fun w => (w, home group.address) :
      List (Nat × Nat)) : Multiset (Nat × Nat))) hnew
  have hsame : ∀ s : XbarRouter, s.inBuffers = r.inBuffers → s.outBuffers = r.outBuffers →
      s.multicastDeliveryBuffers = r.multicastDeliveryBuffers →
      s.tmaMulticastGroups.groups =
        r.tmaMulticastGroups.groups.insert m { address := address } →
      s.tmaResponseMulticastDeliveries = r.tmaResponseMulticastDeliveries →
      s.pushed = r.pushed → s.popped = r.popped →
      (s.pushed : Multiset (Nat × Nat)) = s.popped + resident x home s := by
    intro s h1 h2 h3 h4 h5 h6 h7
    rw [h6, h7, h.conserved]
    unfold resident transit delivered waiting pending
    rw [h1, h2, h3, h4, h5, hgroups, List.map_nil, Multiset.coe_nil, add_zero]
  constructor
  · exact hsame _ rfl rfl rfl rfl rfl rfl rfl
  · exact h.distinct
  · exact h.occupied
  · exact h.outPlaced
  · exact h.deliveryPlaced
  · exact h.pendingPlaced
  · intro m' group hm
    dsimp only at hm
    rw [Table.lookup_insert] at hm
    split at hm
    · rename_i heq
      cases hm
      rw [heq]
      exact hmaster
    · exact h.groupMaster m' group hm
  · intro address' m' hactive
    dsimp only at hactive ⊢
    rw [Table.lookup_insert] at hactive
    split at hactive
    · rename_i heq
      cases hactive
      exact ⟨_, by rw [Table.lookup_insert, if_pos rfl], heq.symm⟩
    · obtain ⟨group, hgroup, haddress⟩ := h.active address' m' hactive
      refine ⟨group, ?_, haddress⟩
      rw [Table.lookup_insert, if_neg]
      · exact hgroup
      · rintro rfl
        rw [hnew] at hgroup
        cases hgroup
  · exact h.deliveryMaster
  · intro hoff
    rw [hon] at hoff
    cases hoff
  · exact h.noDeliveries

/-- A pushed request waits for the master of its address. -/
theorem Kept.joinGroup (h : Kept x home r) {address m d : Nat} {group : MulticastGroup}
    (hactive : r.tmaMulticastGroups.activeMaster.lookup address = some m)
    (hgroup : r.tmaMulticastGroups.groups.lookup m = some group)
    (hfresh : d ∉ r.pushed.map Prod.fst) :
    Kept x home { r with
      tmaMulticastGroups := { r.tmaMulticastGroups with
        groups := r.tmaMulticastGroups.groups.insert m
          { group with waiters := group.waiters ++ [d] } }
      pushed := r.pushed ++ [(d, home address)] } := by
  have haddress : group.address = address := by
    obtain ⟨found, hfound, haddress⟩ := h.active address m hactive
    rw [hgroup] at hfound
    cases hfound
    exact haddress
  have hgroups := Table.holdings_insert (y := { group with waiters := group.waiters ++ [d] })
    (f := fun _ group => ((group.waiters.map fun w => (w, home group.address) :
      List (Nat × Nat)) : Multiset (Nat × Nat))) hgroup
  dsimp only at hgroups
  rw [List.map_append, ← Multiset.coe_add, add_left_comm, add_comm
    (((group.waiters.map fun w => (w, home group.address) : List (Nat × Nat))) :
      Multiset (Nat × Nat))] at hgroups
  have hgroups := add_right_cancel hgroups
  have hsame : ∀ s : XbarRouter, s.inBuffers = r.inBuffers → s.outBuffers = r.outBuffers →
      s.multicastDeliveryBuffers = r.multicastDeliveryBuffers →
      s.tmaMulticastGroups.groups = r.tmaMulticastGroups.groups.insert m
        { group with waiters := group.waiters ++ [d] } →
      s.tmaResponseMulticastDeliveries = r.tmaResponseMulticastDeliveries →
      s.pushed = r.pushed ++ [(d, home address)] → s.popped = r.popped →
      (s.pushed : Multiset (Nat × Nat)) = s.popped + resident x home s := by
    intro s h1 h2 h3 h4 h5 h6 h7
    rw [h6, h7, ← Multiset.coe_add, h.conserved]
    unfold resident transit delivered waiting pending
    rw [h1, h2, h3, h4, h5, hgroups, List.map_singleton, haddress]
    abel
  constructor
  · exact hsame _ rfl rfl rfl rfl rfl rfl rfl
  · dsimp only
    rw [List.map_append, List.map_singleton, List.nodup_append]
    refine ⟨h.distinct, List.nodup_singleton _, fun a ha b hb heq => ?_⟩
    rw [List.mem_singleton.mp hb] at heq
    have hdata : a = d := heq
    exact hfresh (hdata ▸ ha)
  · exact h.occupied
  · exact h.outPlaced
  · exact h.deliveryPlaced
  · exact h.pendingPlaced
  · intro m' group' hm
    dsimp only at hm
    rw [Table.lookup_insert] at hm
    split at hm
    · rename_i heq
      cases hm
      rw [heq]
      exact h.groupMaster m group hgroup
    · exact h.groupMaster m' group' hm
  · intro address' m' hactive'
    obtain ⟨found, hfound, haddress'⟩ := h.active address' m' hactive'
    dsimp only
    rw [Table.lookup_insert]
    split
    · rename_i heq
      rw [heq, hgroup] at hfound
      cases hfound
      exact ⟨_, rfl, haddress'⟩
    · exact ⟨found, hfound, haddress'⟩
  · exact h.deliveryMaster
  · intro hoff
    rw [h.noGroups hoff m] at hgroup
    cases hgroup
  · exact h.noDeliveries

/-- An access of another kind closes the address. -/
theorem Kept.closeAddress (h : Kept x home r) (address : Nat) :
    Kept x home { r with tmaMulticastGroups := r.tmaMulticastGroups.closeAddress address } := by
  constructor
  · exact h.conserved
  · exact h.distinct
  · exact h.occupied
  · exact h.outPlaced
  · exact h.deliveryPlaced
  · exact h.pendingPlaced
  · exact h.groupMaster
  · intro address' m hactive
    unfold MulticastGroupTracker.closeAddress at hactive
    dsimp only at hactive
    rw [Table.lookup_erase] at hactive
    split at hactive
    · cases hactive
    · exact h.active address' m hactive
  · exact h.deliveryMaster
  · exact h.noGroups
  · exact h.noDeliveries

/-- A request that may be merged with others. -/
def Mergeable (x : Xbar) (fetch : XbarFetch) : Prop :=
  x.tmaRequestMulticast = true ∧ fetch.isWrite = false ∧ fetch.isTmaRead = true ∧
    fetch.dataSize = xbarSectorSize

theorem Kept.push (h : Kept x home r) {packet : XbarPacket} {fetch : XbarFetch}
    (hfresh : packet.data ∉ r.pushed.map Prod.fst)
    (hhome : Mergeable x fetch →
      packet.outputDeviceId = home (fetch.addr - fetch.addr % xbarSectorSize))
    (hok : r.push x input packet fetch = .ok r') : Kept x home r' := by
  obtain ⟨after, hpush, hrecord⟩ := bind_eq_ok hok
  cases hrecord
  obtain ⟨_, hin, hpush⟩ := bind_eq_ok hpush
  obtain ⟨_, hout, hok⟩ := bind_eq_ok hpush
  have hin := require_ok hin
  have hout := require_ok hout
  obtain ⟨henter, htransit⟩ := h.enqueue hin hout hfresh
  dsimp only at hok
  split at hok
  · cases hok
    exact henter
  · rename_i hon
    simp only [Bool.not_eq_true, Bool.not_eq_false'] at hon
    split at hok
    · rename_i hmerge
      simp only [Bool.and_eq_true, Bool.not_eq_true', beq_iff_eq] at hmerge
      have hhome := hhome ⟨hon, hmerge.1.1, hmerge.1.2, hmerge.2⟩
      obtain ⟨⟨admitted, tracker⟩, hadm, hok⟩ := bind_eq_ok hok
      cases hok
      unfold MulticastGroupTracker.admitItem at hadm
      split at hadm
      · rename_i m hactive
        split at hadm
        · cases hadm
        · rename_i group hgroup
          cases hadm
          have hjoin := h.joinGroup hactive hgroup hfresh
          rw [← hhome] at hjoin
          exact hjoin
      · obtain ⟨_, hnew, hadm⟩ := bind_eq_ok hadm
        cases hadm
        have hnone : r.tmaMulticastGroups.groups.lookup packet.data = none := by
          simpa using require_true hnew
        refine henter.openGroup hon ?_ hnone
        rw [htransit, Multiset.mem_add, Multiset.mem_singleton, ← hhome]
        exact .inr rfl
    · cases hok
      exact henter.closeAddress _

/-- The deliveries of a pushed response master. -/
theorem Kept.addDeliveries (h : Kept x home r) {d o : Nat} {packets : List XbarPacket}
    {pushed : List (Nat × Nat)} (hon : x.tmaResponseMulticast = true)
    (hmaster : (d, o) ∈ transit x r)
    (hnew : r.tmaResponseMulticastDeliveries.lookup d = none)
    (hplaced : ∀ p ∈ packets, p.outputDeviceId < x.totalNodes)
    (hpushed : (pushed : Multiset (Nat × Nat)) =
      r.pushed + (packets.map XbarPacket.item : List (Nat × Nat)))
    (hdistinct : (pushed.map Prod.fst).Nodup) :
    Kept x home { r with
      tmaResponseMulticastDeliveries := r.tmaResponseMulticastDeliveries.insert d packets
      pushed := pushed } := by
  have hpending := Table.holdings_insert_new (x := packets) (f := fun _ packets =>
    ((packets.map XbarPacket.item : List (Nat × Nat)) : Multiset (Nat × Nat))) hnew
  have hsame : ∀ s : XbarRouter, s.inBuffers = r.inBuffers → s.outBuffers = r.outBuffers →
      s.multicastDeliveryBuffers = r.multicastDeliveryBuffers →
      s.tmaMulticastGroups = r.tmaMulticastGroups →
      s.tmaResponseMulticastDeliveries = r.tmaResponseMulticastDeliveries.insert d packets →
      s.pushed = pushed → s.popped = r.popped →
      (s.pushed : Multiset (Nat × Nat)) = s.popped + resident x home s := by
    intro s h1 h2 h3 h4 h5 h6 h7
    rw [h6, h7, hpushed, h.conserved]
    unfold resident transit delivered waiting pending
    rw [h1, h2, h3, h4, h5, hpending]
    abel
  constructor
  · exact hsame _ rfl rfl rfl rfl rfl rfl rfl
  · exact hdistinct
  · exact h.occupied
  · exact h.outPlaced
  · exact h.deliveryPlaced
  · intro d' packets' hd
    dsimp only at hd
    rw [Table.lookup_insert] at hd
    split at hd
    · cases hd
      exact hplaced
    · exact h.pendingPlaced d' packets' hd
  · exact h.groupMaster
  · exact h.active
  · intro d' packets' hd
    dsimp only at hd
    rw [Table.lookup_insert] at hd
    split at hd
    · rename_i heq
      rw [heq]
      exact ⟨o, hmaster⟩
    · exact h.deliveryMaster d' packets' hd
  · exact h.noGroups
  · intro hoff
    rw [hon] at hoff
    cases hoff

theorem Kept.pushMulticast (h : Kept x home r) {packet : XbarPacket} {fetch : XbarFetch}
    {destinations : List (Nat × Nat)}
    (hfresh : (r.pushed.map Prod.fst ++ packet.data :: destinations.map Prod.snd).Nodup)
    (hok : r.pushMulticast x input packet fetch destinations = .ok r') : Kept x home r' := by
  obtain ⟨_, hon, hok⟩ := bind_eq_ok hok
  obtain ⟨_, -, hok⟩ := bind_eq_ok hok
  obtain ⟨_, -, hok⟩ := bind_eq_ok hok
  obtain ⟨_, hnew, hok⟩ := bind_eq_ok hok
  obtain ⟨_, hrange, hok⟩ := bind_eq_ok hok
  obtain ⟨_, -, hok⟩ := bind_eq_ok hok
  have hon := require_true hon
  have hnew : r.tmaResponseMulticastDeliveries.lookup packet.data = none := by
    simpa using require_true hnew
  have hrange : ∀ d ∈ destinations, d.1 < x.totalNodes := by
    simpa using require_true hrange
  have hoff : x.tmaRequestMulticast = false := by
    unfold Xbar.tmaResponseMulticast at hon
    unfold Xbar.tmaRequestMulticast
    simp only [Bool.and_eq_true, Bool.not_eq_true'] at hon
    rw [hon.1, Bool.false_and]
  obtain ⟨after, hpush, hrecord⟩ := bind_eq_ok hok
  cases hrecord
  obtain ⟨_, hin, hpush⟩ := bind_eq_ok hpush
  obtain ⟨_, hout, hpush⟩ := bind_eq_ok hpush
  dsimp only at hpush
  rw [hoff] at hpush
  cases hpush
  have hfresh' : packet.data ∉ r.pushed.map Prod.fst := by
    rw [List.nodup_append] at hfresh
    exact fun hin => hfresh.2.2 _ hin _ List.mem_cons_self rfl
  obtain ⟨henter, htransit⟩ := h.enqueue (require_ok hin) (require_ok hout) hfresh'
  have hitems : (destinations.map fun d => ({ packet with data := d.2, outputDeviceId := d.1 } :
      XbarPacket)).map XbarPacket.item = destinations.map Prod.swap := by
    rw [List.map_map]
    rfl
  refine henter.addDeliveries (o := packet.outputDeviceId) hon ?_ hnew ?_ ?_ ?_
  · rw [htransit, Multiset.mem_add, Multiset.mem_singleton]
    exact .inr rfl
  · intro p hp
    obtain ⟨d, hd, rfl⟩ := List.mem_map.mp hp
    exact hrange d hd
  · rw [hitems]
    unfold XbarRouter.enqueue XbarPacket.item
    dsimp only
    rw [← Multiset.coe_add, ← Multiset.coe_add, ← Multiset.coe_add]
    abel
  · have hperm : ((r.pushed ++ destinations.map Prod.swap ++
        [(packet.data, packet.outputDeviceId)]).map Prod.fst).Perm
        (r.pushed.map Prod.fst ++ packet.data :: destinations.map Prod.snd) := by
      rw [List.map_append, List.map_append, List.map_map, List.map_singleton, List.append_assoc]
      exact (List.perm_append_singleton _ _).append_left _
    exact hperm.nodup_iff.mpr hfresh

end XbarRouter

end FlashGpuSim
