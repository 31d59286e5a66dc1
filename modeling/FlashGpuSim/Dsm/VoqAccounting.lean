import FlashGpuSim.Cluster.KernelWalk
import FlashGpuSim.Transport

/-!
The occupancy of a bounded virtual output queue over whole runs, with the 32-bit sums of the
source. The accounts balance, however the packets are queued around one that is larger than the
queue, until the sum that is compared with the limit wraps.
-/

namespace FlashGpuSim

open Lib

/-- `transport_packet_metadata_t`, of which the queue reads the flits. -/
structure TransportPacketMetadata where
  remainingFlits : Nat

instance : FlitPacket TransportPacketMetadata where
  remainingFlits := TransportPacketMetadata.remainingFlits
  setRemaining _ k := ⟨k⟩
  remaining_set _ _ := rfl

/-- What a queue is made with. The fabric replaces a limit of zero. -/
structure VoqParams where
  nDst : Nat
  limit : Nat
  limit_pos : 0 < limit
  limit_lt : limit < 2 ^ 32

variable {Pkt : Type*} [FlitPacket Pkt]

open FlitPacket

/-- A packet to be queued: an `unsigned` number of flits, at least one. -/
structure FlitsToSend (Pkt : Type*) [FlitPacket Pkt] where
  pkt : Pkt
  flits_pos : 0 < remainingFlits pkt
  flits_lt : remainingFlits pkt < 2 ^ 32

/-- The calls of a queue. A write through `front_mutable` does not touch the flits. -/
inductive VoqOp (Pkt : Type*) [FlitPacket Pkt] (nDst : Nat)
  | push (dst : Fin nDst) (p : FlitsToSend Pkt)
  | pushBefore (dst : Fin nDst) (p : FlitsToSend Pkt) (before : Pkt → Bool)
  | pushFront (dst : Fin nDst) (p : FlitsToSend Pkt)
  | editFront (dst : Fin nDst) (edit : Pkt → Pkt)
      (keeps : ∀ p, remainingFlits (edit p) = remainingFlits p)
  | grantFlit (dst : Fin nDst)

namespace BoundedVoq

/-! ### The sums of the source -/

/-- `can_push` -/
def canPush32 (voq : BoundedVoq Pkt) (dst flits : Nat) : Bool :=
  if voq.limit < flits then (voq.q dst).isEmpty && voq.occ dst == 0
  else decide (u32 (voq.occ dst + flits) ≤ voq.limit)

def stored32 (voq : BoundedVoq Pkt) (dst : Nat) (queue : List Pkt) (flits : Nat) :
    BoundedVoq Pkt :=
  { voq with
    q := Function.update voq.q dst queue
    occ := Function.update voq.occ dst (u32 (voq.occ dst + min flits voq.limit)) }

/-- `push` -/
def push32 (voq : BoundedVoq Pkt) (dst : Nat) (pkt : Pkt) :
    Checked (Bool × BoundedVoq Pkt) := do
  require (dst < voq.nDst) .dstInRange
  if voq.canPush32 dst (remainingFlits pkt) then
    return (true, voq.stored32 dst (voq.q dst ++ [pkt]) (remainingFlits pkt))
  else
    return (false, voq)

/-- `push_before` -/
def pushBefore32 (voq : BoundedVoq Pkt) (dst : Nat) (pkt : Pkt) (before : Pkt → Bool) :
    Checked (Bool × BoundedVoq Pkt) := do
  require (dst < voq.nDst) .dstInRange
  if voq.canPush32 dst (remainingFlits pkt) then
    return (true, voq.stored32 dst (insertBefore pkt before (voq.q dst)) (remainingFlits pkt))
  else
    return (false, voq)

/-- `push_front` -/
def pushFront32 (voq : BoundedVoq Pkt) (dst : Nat) (pkt : Pkt) :
    Checked (Bool × BoundedVoq Pkt) :=
  voq.pushBefore32 dst pkt fun _ => true

/-- What a call leaves of the queue. `grant_flit` subtracts only what its assertions have shown
to be there, so nothing wraps in it. -/
def call {nDst : Nat} (voq : BoundedVoq Pkt) : VoqOp Pkt nDst → Checked (BoundedVoq Pkt)
  | .push dst p => Prod.snd <$> voq.push32 dst p.pkt
  | .pushBefore dst p before => Prod.snd <$> voq.pushBefore32 dst p.pkt before
  | .pushFront dst p => Prod.snd <$> voq.pushFront32 dst p.pkt
  | .editFront dst edit _ => .ok (voq.modifyFront dst edit)
  | .grantFlit dst => Prod.snd <$> voq.grantFlit dst

/-! ### What the accounts say -/

/-- The occupancy of every destination is the sum of the shares of its packets, at most the limit,
and positive where a packet waits. -/
structure Sound (voq : BoundedVoq Pkt) : Prop extends voq.WF where
  occ_pos : ∀ dst, voq.q dst ≠ [] → 0 < voq.occ dst

/-- A flit is granted only where a packet waits. -/
def Callable {nDst : Nat} (voq : BoundedVoq Pkt) : VoqOp Pkt nDst → Prop
  | .grantFlit dst => voq.q dst ≠ []
  | _ => True

/-- The accounts are sound in every state of a run, and no call of it stops at an assertion. -/
def SoundThroughout {nDst : Nat} (voq : BoundedVoq Pkt) : List (VoqOp Pkt nDst) → Prop
  | [] => voq.Sound
  | op :: ops => voq.Sound ∧
      (voq.Callable op → ∃ voq', voq.call op = .ok voq' ∧ voq'.SoundThroughout ops)

/-- The sum of the test for room does not wrap. -/
def Sums {nDst : Nat} (voq : BoundedVoq Pkt) : VoqOp Pkt nDst → Prop
  | .push dst p | .pushBefore dst p _ | .pushFront dst p =>
    remainingFlits p.pkt ≤ voq.limit → voq.occ dst + remainingFlits p.pkt < 2 ^ 32
  | _ => True

/-- No push of a run wraps. -/
def SumsThroughout {nDst : Nat} (voq : BoundedVoq Pkt) : List (VoqOp Pkt nDst) → Prop
  | [] => True
  | op :: ops => voq.Callable op →
      voq.Sums op ∧ ∀ voq', voq.call op = .ok voq' → voq'.SumsThroughout ops

/-! ### One call -/

/-- The accounts are sound, and every packet that waits has a flit left. -/
structure Kept (p : VoqParams) (voq : BoundedVoq Pkt) : Prop where
  wf : voq.WF
  nDst_eq : voq.nDst = p.nDst
  limit_eq : voq.limit = p.limit
  flits_pos : ∀ dst, ∀ pkt ∈ voq.q dst, 0 < remainingFlits pkt

variable {params : VoqParams} {voq : BoundedVoq Pkt}

theorem kept_init : (init params.nDst params.limit : BoundedVoq Pkt).Kept params where
  wf := init_wf _ _
  nDst_eq := rfl
  limit_eq := rfl
  flits_pos _ _ hmem := absurd hmem List.not_mem_nil

theorem Kept.sound (h : voq.Kept params) : voq.Sound where
  toWF := h.wf
  occ_pos := by
    intro dst hne
    obtain ⟨pkt, hmem⟩ := List.exists_mem_of_ne_nil _ hne
    have hlimit : 0 < voq.limit := h.limit_eq ▸ params.limit_pos
    exact occ_pos h.wf hlimit hmem (h.flits_pos dst pkt hmem)

/-- What a push leaves that puts the packet into `queue`. -/
def afterPush (voq : BoundedVoq Pkt) (dst : Nat) (pkt : Pkt) (queue : List Pkt) :
    BoundedVoq Pkt :=
  if voq.canPush32 dst (remainingFlits pkt) then voq.stored32 dst queue (remainingFlits pkt)
  else voq

theorem push32_eq {dst : Nat} (hdst : dst < voq.nDst) (pkt : Pkt) :
    Prod.snd <$> voq.push32 dst pkt = .ok (voq.afterPush dst pkt (voq.q dst ++ [pkt])) := by
  unfold push32 afterPush
  rw [require_pass (decide_eq_true hdst)]
  cases voq.canPush32 dst (remainingFlits pkt) <;> rfl

theorem pushBefore32_eq {dst : Nat} (hdst : dst < voq.nDst) (pkt : Pkt) (before : Pkt → Bool) :
    Prod.snd <$> voq.pushBefore32 dst pkt before =
      .ok (voq.afterPush dst pkt (insertBefore pkt before (voq.q dst))) := by
  unfold pushBefore32 afterPush
  rw [require_pass (decide_eq_true hdst)]
  cases voq.canPush32 dst (remainingFlits pkt) <;> rfl

omit [FlitPacket Pkt] in
theorem canPush32_eq {dst flits : Nat} (hsum : flits ≤ voq.limit → voq.occ dst + flits < 2 ^ 32) :
    voq.canPush32 dst flits = voq.canPush dst flits := by
  unfold canPush32 canPush
  split
  · rfl
  · rw [u32, Nat.mod_eq_of_lt (hsum (by omega))]

omit [FlitPacket Pkt] in
theorem stored32_eq {dst flits : Nat} (queue : List Pkt)
    (hsum : voq.occ dst + min flits voq.limit < 2 ^ 32) :
    voq.stored32 dst queue flits = voq.stored dst queue flits := by
  unfold stored32 stored
  rw [u32, Nat.mod_eq_of_lt hsum]

theorem Kept.stored (h : voq.Kept params) {dst : Nat} (p : FlitsToSend Pkt) {queue : List Pkt}
    (hcan : voq.canPush dst (remainingFlits p.pkt) = true)
    (hperm : queue.Perm (p.pkt :: voq.q dst)) :
    (voq.stored dst queue (remainingFlits p.pkt)).Kept params where
  wf := stored_wf h.wf hcan hperm
  nDst_eq := h.nDst_eq
  limit_eq := h.limit_eq
  flits_pos := by
    intro d pkt hmem
    rw [stored_q] at hmem
    split at hmem
    · rcases List.mem_cons.mp (hperm.mem_iff.mp hmem) with rfl | hold
      · exact p.flits_pos
      · exact h.flits_pos dst pkt hold
    · exact h.flits_pos d pkt hmem

/-- A push whose sum does not wrap keeps the accounts. -/
theorem Kept.afterPush (h : voq.Kept params) {dst : Nat} (p : FlitsToSend Pkt) {queue : List Pkt}
    (hperm : queue.Perm (p.pkt :: voq.q dst))
    (hsum : remainingFlits p.pkt ≤ voq.limit → voq.occ dst + remainingFlits p.pkt < 2 ^ 32) :
    (voq.afterPush dst p.pkt queue).Kept params := by
  unfold BoundedVoq.afterPush
  rw [canPush32_eq hsum]
  split
  · rename_i hcan
    have hle := canPush_occ hcan
    have hlimit : voq.limit < 2 ^ 32 := h.limit_eq ▸ params.limit_lt
    rw [stored32_eq queue (by omega)]
    exact h.stored p hcan hperm
  · exact h

/-- A push that wraps is accepted, and its flits are not counted. -/
theorem Kept.not_sound (h : voq.Kept params) {dst : Nat} (p : FlitsToSend Pkt) {queue : List Pkt}
    (hperm : queue.Perm (p.pkt :: voq.q dst)) (hfits : remainingFlits p.pkt ≤ voq.limit)
    (hwrap : 2 ^ 32 ≤ voq.occ dst + remainingFlits p.pkt) :
    ¬ (voq.afterPush dst p.pkt queue).Sound := by
  intro hsound
  have hocc := h.wf.occ_le dst
  have hlimit : voq.limit < 2 ^ 32 := h.limit_eq ▸ params.limit_lt
  have hflits := p.flits_lt
  have hwrapped : u32 (voq.occ dst + remainingFlits p.pkt) =
      voq.occ dst + remainingFlits p.pkt - 2 ^ 32 := by
    rw [u32, Nat.mod_eq_sub_mod hwrap, Nat.mod_eq_of_lt (by omega)]
  have hcan : voq.canPush32 dst (remainingFlits p.pkt) = true := by
    unfold canPush32
    rw [if_neg (by omega), hwrapped]
    exact decide_eq_true (by omega)
  have hsum : (queue.map (share voq.limit)).sum = remainingFlits p.pkt + voq.occ dst := by
    rw [(hperm.map _).sum_eq, List.map_cons, List.sum_cons, ← h.wf.occ_eq dst, share,
      Nat.min_eq_left hfits]
  have hbooked := hsound.occ_eq dst
  unfold BoundedVoq.afterPush at hbooked
  rw [if_pos hcan] at hbooked
  simp only [stored32, Function.update_self, Nat.min_eq_left hfits] at hbooked
  rw [hwrapped, hsum] at hbooked
  omega

theorem Kept.modifyFront (h : voq.Kept params) (dst : Nat) {edit : Pkt → Pkt}
    (keeps : ∀ p, remainingFlits (edit p) = remainingFlits p) :
    (voq.modifyFront dst edit).Kept params where
  wf := modifyFront_wf h.wf keeps
  nDst_eq := h.nDst_eq
  limit_eq := h.limit_eq
  flits_pos := by
    intro d pkt hmem
    rcases eq_or_ne d dst with rfl | hne
    · cases hq : voq.q d with
      | nil => simp [BoundedVoq.modifyFront, hq] at hmem
      | cons p rest =>
        simp only [BoundedVoq.modifyFront, Function.update_self, hq, List.modifyHead_cons,
          List.mem_cons] at hmem
        rcases hmem with rfl | hrest
        · rw [keeps]
          exact h.flits_pos d p (hq ▸ List.mem_cons_self)
        · exact h.flits_pos d pkt (hq ▸ List.mem_cons_of_mem _ hrest)
    · simp only [BoundedVoq.modifyFront, Function.update_of_ne hne] at hmem
      exact h.flits_pos d pkt hmem

theorem Kept.afterFlit (h : voq.Kept params) {dst : Nat} {p : Pkt} {rest : List Pkt}
    (hq : voq.q dst = p :: rest) : (voq.afterFlit dst p rest).Kept params where
  wf := afterFlit_wf h.wf hq (h.flits_pos dst p (hq ▸ List.mem_cons_self))
  nDst_eq := h.nDst_eq
  limit_eq := h.limit_eq
  flits_pos := by
    intro d pkt hmem
    have hrest : ∀ pkt ∈ rest, 0 < remainingFlits pkt := fun pkt hin =>
      h.flits_pos dst pkt (hq ▸ List.mem_cons_of_mem _ hin)
    rw [afterFlit_q] at hmem
    split at hmem
    · split at hmem
      · rename_i hmore
        rcases List.mem_cons.mp hmem with rfl | hin
        · rw [remaining_set]
          omega
        · exact hrest pkt hin
      · exact hrest pkt hmem
    · exact h.flits_pos d pkt hmem

/-- What a push does, wherever it puts the packet. -/
theorem Kept.push_spec (h : voq.Kept params) {dst : Nat} (p : FlitsToSend Pkt)
    {queue : List Pkt} (hperm : queue.Perm (p.pkt :: voq.q dst)) {c : Checked (BoundedVoq Pkt)}
    (hcall : c = .ok (voq.afterPush dst p.pkt queue)) :
    ∃ voq', c = .ok voq' ∧
      ((remainingFlits p.pkt ≤ voq.limit → voq.occ dst + remainingFlits p.pkt < 2 ^ 32) →
        voq'.Kept params) ∧
      (voq'.Sound → remainingFlits p.pkt ≤ voq.limit →
        voq.occ dst + remainingFlits p.pkt < 2 ^ 32) := by
  refine ⟨_, hcall, h.afterPush p hperm, ?_⟩
  intro hsound hfits
  by_contra hwrap
  exact h.not_sound p hperm hfits (Nat.le_of_not_lt hwrap) hsound

/-- A call ends, keeps the accounts when its sum does not wrap, and breaks them when it does. -/
theorem Kept.call_spec (h : voq.Kept params) (op : VoqOp Pkt params.nDst)
    (hcall : voq.Callable op) :
    ∃ voq', voq.call op = .ok voq' ∧ (voq.Sums op → voq'.Kept params) ∧
      (voq'.Sound → voq.Sums op) := by
  have hrange : ∀ dst : Fin params.nDst, (dst : Nat) < voq.nDst := fun dst =>
    dst.isLt.trans_eq h.nDst_eq.symm
  cases op with
  | push dst p =>
    exact h.push_spec p (List.perm_append_singleton _ _) (push32_eq (hrange dst) _)
  | pushBefore dst p before =>
    exact h.push_spec p (insertBefore_perm _ _ _) (pushBefore32_eq (hrange dst) _ _)
  | pushFront dst p =>
    exact h.push_spec p (insertBefore_perm _ _ _) (pushBefore32_eq (hrange dst) _ _)
  | editFront dst edit keeps =>
    exact ⟨_, rfl, fun _ => h.modifyFront dst keeps, fun _ => trivial⟩
  | grantFlit dst =>
    obtain ⟨p, rest, hq⟩ := List.exists_cons_of_ne_nil hcall
    have hp : 0 < remainingFlits p := h.flits_pos dst p (hq ▸ List.mem_cons_self)
    have hocc : 0 < voq.occ dst := h.sound.occ_pos dst hcall
    have hgrant := grantFlit_eq (hrange dst) hq hocc hp
    refine ⟨voq.afterFlit dst p rest, ?_, fun _ => h.afterFlit hq, fun _ => trivial⟩
    simp only [call, hgrant]
    rfl

/-! ### Runs -/

theorem SoundThroughout.sound {ops : List (VoqOp Pkt params.nDst)}
    (h : voq.SoundThroughout ops) : voq.Sound := by
  cases ops with
  | nil => exact h
  | cons op ops => exact h.1

theorem Kept.soundThroughout_iff (h : voq.Kept params) (ops : List (VoqOp Pkt params.nDst)) :
    voq.SoundThroughout ops ↔ voq.SumsThroughout ops := by
  induction ops generalizing voq with
  | nil => exact iff_of_true h.sound trivial
  | cons op ops ih =>
    constructor
    · intro hrun hcall
      obtain ⟨voq', hstep, hkeeps, hsums⟩ := h.call_spec op hcall
      obtain ⟨_, hrest⟩ := hrun
      obtain ⟨voq'', hstep', hsound⟩ := hrest hcall
      cases hstep.symm.trans hstep'
      have hfits := hsums hsound.sound
      refine ⟨hfits, fun voq'' hstep'' => ?_⟩
      cases hstep.symm.trans hstep''
      exact (ih (hkeeps hfits)).mp hsound
    · intro hrun
      refine ⟨h.sound, fun hcall => ?_⟩
      obtain ⟨voq', hstep, hkeeps, _⟩ := h.call_spec op hcall
      obtain ⟨hfits, hrest⟩ := hrun hcall
      exact ⟨voq', hstep, (ih (hkeeps hfits)).mpr (hrest voq' hstep)⟩

/-- No push wraps in a queue of less than 2^31 flits. -/
theorem Kept.sumsThroughout (h : voq.Kept params) (hlimit : params.limit < 2 ^ 31)
    (ops : List (VoqOp Pkt params.nDst)) : voq.SumsThroughout ops := by
  induction ops generalizing voq with
  | nil => trivial
  | cons op ops ih =>
    intro hcall
    have hlimit' : voq.limit < 2 ^ 31 := h.limit_eq ▸ hlimit
    have hsums : voq.Sums op := by
      cases op with
      | push dst p | pushBefore dst p before | pushFront dst p =>
        intro hfits
        have hocc := h.wf.occ_le dst
        omega
      | editFront dst edit keeps => trivial
      | grantFlit dst => trivial
    obtain ⟨voq', hstep, hkeeps, _⟩ := h.call_spec op hcall
    refine ⟨hsums, fun voq'' hstep'' => ?_⟩
    cases hstep.symm.trans hstep''
    exact ih (hkeeps hsums)

/-- The accounts of a queue are sound throughout a run exactly when no push of it wraps. -/
theorem voq_sound_iff (params : VoqParams) (ops : List (VoqOp Pkt params.nDst)) :
    (init params.nDst params.limit : BoundedVoq Pkt).SoundThroughout ops ↔
      (init params.nDst params.limit : BoundedVoq Pkt).SumsThroughout ops :=
  kept_init.soundThroughout_iff ops

/-- They are sound in every run of a queue of less than 2^31 flits. -/
theorem sound_of_small_limit (hlimit : params.limit < 2 ^ 31)
    (ops : List (VoqOp Pkt params.nDst)) :
    (init params.nDst params.limit : BoundedVoq Pkt).SoundThroughout ops :=
  (kept_init.soundThroughout_iff ops).mpr (kept_init.sumsThroughout hlimit ops)

/-- Two packets that each fill a queue of 2^31 flits both get in. -/
theorem voq_wraps : ¬ ∀ (params : VoqParams) (ops : List (VoqOp TransportPacketMetadata params.nDst)),
    (init params.nDst params.limit : BoundedVoq TransportPacketMetadata).SoundThroughout ops := by
  intro h
  have hrun := h ⟨1, 2 ^ 31, by decide, by decide⟩
    [.push 0 ⟨⟨2 ^ 31⟩, by decide, by decide⟩, .push 0 ⟨⟨2 ^ 31⟩, by decide, by decide⟩]
  have hsums := (kept_init.soundThroughout_iff _).mp hrun trivial
  have hsecond := (hsums.2 _ rfl trivial).1
  exact absurd (hsecond (by decide)) (by decide)

end BoundedVoq

end FlashGpuSim
