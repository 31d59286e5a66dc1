import FlashGpuSim.Interconnect.XbarItems

/-!
A crossbar router neither loses nor duplicates an item, under every arbitration.
-/

namespace FlashGpuSim

open Lib

namespace XbarRouter

variable {x : Xbar} {home : Nat → Nat} {r r' : XbarRouter} {input output : Nat}

section Arbitration

theorem Kept.setCycles (h : Kept x home r) (cycles : Nat) :
    Kept x home { r with cycles := cycles } := h.congr rfl rfl rfl rfl rfl rfl rfl rfl

theorem Kept.setPointers (h : Kept x home r) (inputBudgets outputBudgets : Nat → ServiceBudget)
    (nextNodeId nextOutputId : Nat) : Kept x home { r with
      inputBudgets := inputBudgets
      outputBudgets := outputBudgets
      nextNodeId := nextNodeId
      nextOutputId := nextOutputId } := h.congr rfl rfl rfl rfl rfl rfl rfl rfl

theorem Kept.countGrantCycles (h : Kept x home r) (active : Bool) :
    Kept x home (r.countGrantCycles x active) := by
  unfold XbarRouter.countGrantCycles
  split
  · exact h.congr rfl rfl rfl rfl rfl rfl rfl rfl
  · split
    · exact h.congr rfl rfl rfl rfl rfl rfl rfl rfl
    · exact h

theorem Kept.islipOutput (h : Kept x home r) {granted granted' : List Nat}
    (hok : islipOutput x r granted output = .ok (r', granted')) : Kept x home r' := by
  unfold XbarRouter.islipOutput at hok
  split at hok
  · cases hok
    exact h
  · dsimp only at hok
    split at hok
    · cases hok
      exact h
    · obtain ⟨moved, hmoved, hok⟩ := bind_eq_ok hok
      have hkept := h.transferPacket hmoved
      cases hok
      split
      · exact hkept.congr rfl rfl rfl rfl rfl rfl rfl rfl
      · exact hkept

theorem Kept.islipAdvance (h : Kept x home r) (hok : r.islipAdvance x = .ok r') :
    Kept x home r' := by
  obtain ⟨⟨last, set⟩, hfold, hok⟩ := bind_eq_ok hok
  have hlast : Kept x home last :=
    foldlM_invariant (fun s : XbarRouter × List Nat => Kept x home s.1)
      (fun s output t _ hs ht => hs.islipOutput ht) h hfold
  cases hok
  exact (hlast.countGrantCycles _).congr rfl rfl rfl rfl rfl rfl rfl rfl

theorem Kept.rrNode (h : Kept x home r) {issued issued' : List Nat} {node : Nat}
    (hok : rrNode x r issued node = .ok (r', issued')) : Kept x home r' := by
  unfold XbarRouter.rrNode at hok
  split at hok
  · obtain ⟨output, -, hok⟩ := bind_eq_ok hok
    obtain ⟨_, -, hok⟩ := bind_eq_ok hok
    split at hok
    · obtain ⟨moved, hmoved, hok⟩ := bind_eq_ok hok
      cases hok
      exact h.transferPacket hmoved
    · cases hok
      exact h
  · cases hok
    exact h

theorem Kept.rrAdvance (h : Kept x home r) (hok : r.rrAdvance x = .ok r') : Kept x home r' := by
  obtain ⟨⟨last, set⟩, hfold, hok⟩ := bind_eq_ok hok
  have hlast : Kept x home last :=
    foldlM_invariant (fun s : XbarRouter × List Nat => Kept x home s.1)
      (fun s node t _ hs ht => hs.rrNode ht) h hfold
  obtain ⟨_, -, hok⟩ := bind_eq_ok hok
  cases hok
  exact hlast.congr rfl rfl rfl rfl rfl rfl rfl rfl

variable {t t' : NumericTick} {packet : XbarPacket} {granted : Bool}

theorem Kept.reserveCredit (h : Kept x home t.router) :
    Kept x home (t.reserveCredit x input output packet).router := by
  unfold NumericTick.reserveCredit
  dsimp only
  split
  · split
    · exact h.congr rfl rfl rfl rfl rfl rfl rfl rfl
    · exact h.congr rfl rfl rfl rfl rfl rfl rfl rfl
  · split
    · exact h.congr rfl rfl rfl rfl rfl rfl rfl rfl
    · exact h

theorem Kept.noteDownstreamFull (h : Kept x home t.router) :
    Kept x home (t.noteDownstreamFull output).router := by
  unfold NumericTick.noteDownstreamFull
  split
  · exact h
  · exact h.congr rfl rfl rfl rfl rfl rfl rfl rfl

theorem Kept.grant (h : Kept x home t.router)
    (hok : t.grant x input output packet = .ok t') : Kept x home t'.router := by
  obtain ⟨inputBudget, -, hok⟩ := bind_eq_ok hok
  obtain ⟨outputBudget, -, hok⟩ := bind_eq_ok hok
  obtain ⟨moved, hmoved, hok⟩ := bind_eq_ok hok
  have hbudgets : Kept x home ((t.mapInputBudget input fun _ => inputBudget).mapOutputBudget
      output fun _ => outputBudget).router := h.congr rfl rfl rfl rfl rfl rfl rfl rfl
  cases hok
  exact hbudgets.transferPacket hmoved

theorem Kept.islipInputs (h : Kept x home t.router) {inputs : List Nat}
    (hok : NumericTick.islipInputs x output inputs t = .ok (granted, t')) :
    Kept x home t'.router := by
  induction inputs generalizing t with
  | nil =>
    cases hok
    exact h
  | cons input rest ih =>
    unfold NumericTick.islipInputs at hok
    split at hok
    · exact ih h hok
    · split at hok
      · exact ih h hok
      · dsimp only at hok
        split at hok
        · cases hok
          exact h.reserveCredit
        · split at hok
          · exact ih h.reserveCredit hok
          · split at hok
            · exact ih h hok
            · obtain ⟨after, hgrant, hok⟩ := bind_eq_ok hok
              have hkept := h.grant hgrant
              cases hok
              split
              · exact hkept.congr rfl rfl rfl rfl rfl rfl rfl rfl
              · exact hkept

theorem Kept.numericOutput (h : Kept x home t.router)
    (hok : NumericTick.islipOutput x t output = .ok (granted, t')) : Kept x home t'.router := by
  unfold NumericTick.islipOutput at hok
  split at hok
  · cases hok
    exact h
  · split at hok
    · cases hok
      split
      · exact h.noteDownstreamFull
      · exact h
    · exact h.islipInputs hok

theorem Kept.rrOutputs (h : Kept x home t.router) {outputs : List Nat}
    (hok : NumericTick.rrOutputs x input outputs t = .ok (granted, t')) :
    Kept x home t'.router := by
  induction outputs generalizing t with
  | nil =>
    cases hok
    exact h
  | cons output rest ih =>
    unfold NumericTick.rrOutputs at hok
    split at hok
    · exact ih h hok
    · split at hok
      · exact ih h hok
      · split at hok
        · exact ih h.noteDownstreamFull hok
        · dsimp only at hok
          split at hok
          · cases hok
            exact h.reserveCredit
          · split at hok
            · exact ih h.reserveCredit hok
            · split at hok
              · exact ih h hok
              · obtain ⟨after, hgrant, hok⟩ := bind_eq_ok hok
                have hkept := h.grant hgrant
                cases hok
                exact hkept.congr rfl rfl rfl rfl rfl rfl rfl rfl

theorem Kept.rrInput (h : Kept x home t.router)
    (hok : NumericTick.rrInput x t input = .ok (granted, t')) : Kept x home t'.router := by
  unfold NumericTick.rrInput at hok
  split at hok
  · cases hok
    exact h
  · split at hok
    · exact h.rrOutputs hok
    · split at hok
      · cases hok
        exact h
      · obtain ⟨output, -, hok⟩ := bind_eq_ok hok
        exact h.rrOutputs hok

theorem Kept.round (h : Kept x home t.router) {number : Nat}
    (hok : NumericTick.round x t number = .ok (granted, t')) : Kept x home t'.router := by
  unfold NumericTick.round at hok
  split at hok
  · refine foldlM_invariant (fun s : Bool × NumericTick => Kept x home s.2.router) ?_ h hok
    intro s output u _ hs hu
    obtain ⟨⟨progress, after⟩, hafter, hu⟩ := bind_eq_ok hu
    cases hu
    exact hs.numericOutput hafter
  · refine foldlM_invariant (fun s : Bool × NumericTick => Kept x home s.2.router) ?_ h hok
    intro s input u _ hs hu
    obtain ⟨⟨progress, after⟩, hafter, hu⟩ := bind_eq_ok hu
    cases hu
    exact hs.rrInput hafter

theorem Kept.rounds (h : Kept x home t.router) {remaining number : Nat}
    (hok : NumericTick.rounds x remaining number t = .ok t') : Kept x home t'.router := by
  induction remaining generalizing t number with
  | zero =>
    cases hok
    exact h
  | succ remaining ih =>
    obtain ⟨⟨progress, after⟩, hround, hok⟩ := bind_eq_ok hok
    dsimp only at hok
    split at hok
    · exact ih (h.round hround) hok
    · cases hok
      exact h.round hround

theorem foldl_invariant {σ ι : Type} (inv : σ → Prop) {body : σ → ι → σ}
    (hbody : ∀ s i, inv s → inv (body s i)) {todo : List ι} {s : σ} (hs : inv s) :
    inv (todo.foldl body s) := by
  induction todo generalizing s with
  | nil => exact hs
  | cons i rest ih => exact ih (hbody s i hs)

theorem Kept.limitInput (h : Kept x home t.router)
    (hok : NumericTick.limitInput x t input = .ok t') : Kept x home t'.router := by
  unfold NumericTick.limitInput at hok
  split at hok
  · cases hok
    exact h
  · split at hok
    · cases hok
      split
      · exact h.congr rfl rfl rfl rfl rfl rfl rfl rfl
      · exact h
    · obtain ⟨outputs, -, hok⟩ := bind_eq_ok hok
      cases hok
      refine foldl_invariant (fun s : NumericTick => Kept x home s.router) ?_ h
      intro s output hs
      split
      · exact hs
      · split
        · exact hs.congr rfl rfl rfl rfl rfl rfl rfl rfl
        · exact hs

theorem Kept.limitOutput (h : Kept x home t.router) :
    Kept x home (NumericTick.limitOutput x t output).router := by
  have hfold : ∀ packets : List XbarPacket, Kept x home
      (packets.foldl (fun t packet => if x.outputSectorWidth ≠ 0 ∧ NumericTick.widthKeeps
          x.outputSectorWidth (t.router.outputBudgets output) packet = true
        then t.mapOutputBudget output (·.noteWidthLimited packet.dataSectors) else t) t).router := by
    intro packets
    refine foldl_invariant (fun s : NumericTick => Kept x home s.router) ?_ h
    intro s packet hs
    split
    · exact hs.congr rfl rfl rfl rfl rfl rfl rfl rfl
    · exact hs
  unfold NumericTick.limitOutput
  dsimp only
  split
  · exact (hfold _).congr rfl rfl rfl rfl rfl rfl rfl rfl
  · exact hfold _

theorem Kept.numericAdvance (h : Kept x home r) (hok : r.numericAdvance x = .ok r') :
    Kept x home r' := by
  obtain ⟨inputBudgets, -, hok⟩ := bind_eq_ok hok
  obtain ⟨outputBudgets, -, hok⟩ := bind_eq_ok hok
  obtain ⟨t, hrounds, hok⟩ := bind_eq_ok hok
  obtain ⟨t', hlimit, hok⟩ := bind_eq_ok hok
  obtain ⟨inputBudgets', -, hok⟩ := bind_eq_ok hok
  obtain ⟨outputBudgets', -, hok⟩ := bind_eq_ok hok
  obtain ⟨_, -, hok⟩ := bind_eq_ok hok
  have hstart : Kept x home { r with inputBudgets := inputBudgets, outputBudgets := outputBudgets } :=
    h.congr rfl rfl rfl rfl rfl rfl rfl rfl
  have ht : Kept x home t.router := Kept.rounds hstart hrounds
  have ht' : Kept x home t'.router :=
    foldlM_invariant (fun s : NumericTick => Kept x home s.router)
      (fun s input u _ hs hu => hs.limitInput hu) ht hlimit
  have hlast : Kept x home ((x.outputsFrom 0).foldl
      (fun t output => NumericTick.limitOutput x t output) t').router :=
    foldl_invariant (fun s : NumericTick => Kept x home s.router)
      (fun s output hs => hs.limitOutput) ht'
  cases hok
  exact ((hlast.setPointers _ _ _ _).countGrantCycles _).setCycles _

theorem Kept.advance (h : Kept x home r) (hok : r.advance x = .ok r') : Kept x home r' := by
  unfold XbarRouter.advance at hok
  split at hok
  · exact h.numericAdvance hok
  · split at hok
    · exact h.rrAdvance hok
    · exact h.islipAdvance hok

end Arbitration

/-- The pointers are distinct, and the mergeable requests of a sector go to its `home`. -/
def Allowed (x : Xbar) (home : Nat → Nat) (r : XbarRouter) : XbarCall → Prop
  | .push _ packet fetch => packet.data ∉ r.pushed.map Prod.fst ∧ (Mergeable x fetch →
      packet.outputDeviceId = home (fetch.addr - fetch.addr % xbarSectorSize))
  | .pushMulticast _ packet _ destinations =>
    (r.pushed.map Prod.fst ++ packet.data :: destinations.map Prod.snd).Nodup
  | _ => True

instance (x : Xbar) (fetch : XbarFetch) : Decidable (Mergeable x fetch) :=
  inferInstanceAs (Decidable (_ ∧ _))

instance (x : Xbar) (home : Nat → Nat) (r : XbarRouter) (call : XbarCall) :
    Decidable (Allowed x home r call) :=
  match call with
  | .push .. => inferInstanceAs (Decidable (_ ∧ (_ → _)))
  | .pushMulticast .. => inferInstanceAs (Decidable (List.Nodup _))
  | .advance | .pop _ => inferInstanceAs (Decidable True)

/-- Where an item of a router is. -/
inductive Resident (x : Xbar) (home : Nat → Nat) (r : XbarRouter) : Nat × Nat → Prop
  | input (i q : Nat) (p : XbarPacket) : i < x.totalNodes → q < queuesPerInput x →
      p ∈ r.inBuffers i q → Resident x home r p.item
  | output (o : Nat) (p : XbarPacket) : o < x.totalNodes → p ∈ r.outBuffers o →
      Resident x home r p.item
  | delivery (o : Nat) (p : XbarPacket) : o < x.totalNodes →
      p ∈ r.multicastDeliveryBuffers o → Resident x home r p.item
  | group (m w : Nat) (group : MulticastGroup) :
      r.tmaMulticastGroups.groups.lookup m = some group → w ∈ group.waiters →
      Resident x home r (w, home group.address)
  | pending (d : Nat) (packets : List XbarPacket) (p : XbarPacket) :
      r.tmaResponseMulticastDeliveries.lookup d = some packets → p ∈ packets →
      Resident x home r p.item

theorem mem_heldIn {buffers : Nat → Nat → List XbarPacket} {item : Nat × Nat} :
    item ∈ heldIn x buffers ↔ ∃ i < x.totalNodes, ∃ q < queuesPerInput x,
      ∃ p ∈ buffers i q, p.item = item := by
  unfold heldIn
  simp only [Multiset.mem_sum, Finset.mem_range, mem_held]

theorem mem_resident {item : Nat × Nat} :
    item ∈ resident x home r ↔ Resident x home r item := by
  unfold resident transit delivered waiting pending
  simp only [Multiset.mem_add, mem_heldIn, mem_held, Table.mem_holdings, Multiset.mem_coe,
    List.mem_map]
  constructor
  · rintro ((((⟨i, hi, q, hq, p, hp, rfl⟩ | ⟨o, ho, p, hp, rfl⟩) | ⟨o, ho, p, hp, rfl⟩) |
      ⟨m, group, hm, w, hw, rfl⟩) | ⟨d, packets, hd, p, hp, rfl⟩)
    · exact .input i q p hi hq hp
    · exact .output o p ho hp
    · exact .delivery o p ho hp
    · exact .group m w group hm hw
    · exact .pending d packets p hd hp
  · intro h
    cases h with
    | input i q p hi hq hp => exact .inl (.inl (.inl (.inl ⟨i, hi, q, hq, p, hp, rfl⟩)))
    | output o p ho hp => exact .inl (.inl (.inl (.inr ⟨o, ho, p, hp, rfl⟩)))
    | delivery o p ho hp => exact .inl (.inl (.inr ⟨o, ho, p, hp, rfl⟩))
    | group m w group hm hw => exact .inl (.inr ⟨m, group, hm, w, hw, rfl⟩)
    | pending d packets p hd hp => exact .inr ⟨d, packets, hd, p, hp, rfl⟩

theorem kept_init (x : Xbar) (home : Nat → Nat) : Kept x home (init x) := by
  have hnone : ∀ item, ¬ Resident x home (init x) item := by
    intro item hitem
    cases hitem with
    | input i q p _ _ hp => cases hp
    | output o p _ hp => cases hp
    | delivery o p _ hp => cases hp
    | group m w group hm _ => cases hm
    | pending d packets p hd _ => cases hd
  have hzero : resident x home (init x) = 0 :=
    Multiset.eq_zero_of_forall_notMem fun item hitem => hnone item (mem_resident.mp hitem)
  constructor
  · rw [hzero]
    rfl
  · exact List.nodup_nil
  · intro i
    exact (Finset.sum_eq_zero fun q _ => rfl).symm
  · exact fun o p hp => (by cases hp)
  · exact fun o p hp => (by cases hp)
  · exact fun d packets hd => (by cases hd)
  · exact fun m group hm => (by cases hm)
  · exact fun address m hactive => (by cases hactive)
  · exact fun d packets hd => (by cases hd)
  · exact fun _ m => rfl
  · exact fun _ d => rfl

theorem kept_of_reaches (hr : Reaches (step x) (Allowed x home) (init x) r) : Kept x home r := by
  refine hr.invariant (Kept x home) (kept_init x home) ?_
  intro s t call hs hallowed hok
  cases call with
  | push input packet fetch => exact hs.push hallowed.1 hallowed.2 hok
  | pushMulticast input packet fetch destinations => exact hs.pushMulticast hallowed hok
  | advance => exact hs.advance hok
  | pop output =>
    obtain ⟨⟨data, after⟩, hpop, hok⟩ := bind_eq_ok hok
    cases hok
    exact hs.pop hpop

/-- An idle router holds nothing. -/
theorem Kept.idle (h : Kept x home r) (hidle : r.busy x = false) (item : Nat × Nat) :
    ¬ Resident x home r item := by
  have hempty : ∀ i < x.totalNodes, r.inBufferOccupancy i = 0 ∧ r.outBuffers i = [] ∧
      r.multicastDeliveryBuffers i = [] := by
    intro i hi
    unfold busy at hidle
    have hnot := List.any_eq_false.mp hidle i (List.mem_range.mpr hi)
    simp only [Bool.or_eq_true, decide_eq_true_eq, Bool.not_eq_true', not_or, Nat.not_lt,
      Nat.le_zero, Bool.not_eq_false, List.isEmpty_iff] at hnot
    exact ⟨hnot.1.1, hnot.1.2, hnot.2⟩
  have htransit : ∀ item, item ∉ transit x r := by
    intro item hin
    unfold transit at hin
    rw [Multiset.mem_add, mem_heldIn, mem_held] at hin
    rcases hin with ⟨i, hi, q, hq, p, hp, -⟩ | ⟨o, ho, p, hp, -⟩
    · have hocc := h.occupied i
      rw [(hempty i hi).1] at hocc
      have hlen := Finset.sum_eq_zero_iff.mp hocc.symm q (Finset.mem_range.mpr hq)
      rw [List.length_eq_zero_iff.mp hlen] at hp
      cases hp
    · rw [(hempty o ho).2.1] at hp
      cases hp
  intro hitem
  cases hitem with
  | input i q p hi hq hp =>
    apply htransit p.item
    unfold transit
    rw [Multiset.mem_add, mem_heldIn]
    exact .inl ⟨i, hi, q, hq, p, hp, rfl⟩
  | output o p ho hp =>
    rw [(hempty o ho).2.1] at hp
    cases hp
  | delivery o p ho hp =>
    rw [(hempty o ho).2.2] at hp
    cases hp
  | group m w group hm _ => exact htransit _ (h.groupMaster m group hm)
  | pending d packets p hd _ =>
    obtain ⟨o, ho⟩ := h.deliveryMaster d packets hd
    exact htransit _ ho

/-- A request network of one shader and two memories that merges the requests of a sector. -/
def merging : Xbar :=
  { routerType := .reqNet, nShader := 1, nMem := 2, config := { tmaRequestMulticast := true } }

end XbarRouter

end FlashGpuSim
