import Mathlib.Logic.Relation
import FlashGpuSim.Dsm.Fabric

/-!
What a grant of the fabric does to its queues and credits, as a sequence of two
kinds of moves: one credit is reserved for the head of a queue, or one flit of
the head is sent. Every invariant of the fabric is proved for one move.
-/

namespace FlashGpuSim

open Lib Relation

namespace FabricBuffers

variable {b b' b'' : FabricBuffers} {n now : Nat} {vc vc' : DsmVc} {sm sm' dst dst' : Nat}
  {p : DsmPacket} {rest : List DsmPacket}

/-- The VOQ of one source and one destination, head first. -/
def queue (b : FabricBuffers) (vc : DsmVc) (src dst : Nat) : List DsmPacket :=
  (b.voq vc src).q dst

theorem front_eq_head (b : FabricBuffers) (vc : DsmVc) (sm dst : Nat) :
    (b.voq vc sm).front dst = (b.queue vc sm dst).head? := rfl

section Frame

variable (b vc sm dst)

@[simp] theorem setVoq_voq (voq : BoundedVoq DsmPacket) (vc' : DsmVc) (sm' : Nat) :
    (b.setVoq vc sm voq).voq vc' sm' =
      if vc' = vc ∧ sm' = sm then voq else b.voq vc' sm' := by
  by_cases hvc : vc' = vc
  · subst hvc
    simp [setVoq, Function.update_apply]
  · simp [setVoq, hvc]

@[simp] theorem setVoq_ej (voq : BoundedVoq DsmPacket) :
    (b.setVoq vc sm voq).ej = b.ej := rfl

@[simp] theorem setVoq_credit (voq : BoundedVoq DsmPacket) :
    (b.setVoq vc sm voq).credit = b.credit := rfl

@[simp] theorem setCredit_voq (credit : FlitCreditCounters) :
    (b.setCredit vc credit).voq = b.voq := rfl

@[simp] theorem setCredit_ej (credit : FlitCreditCounters) :
    (b.setCredit vc credit).ej = b.ej := rfl

@[simp] theorem setCredit_credit (credit : FlitCreditCounters) (vc' : DsmVc) :
    (b.setCredit vc credit).credit vc' = if vc' = vc then credit else b.credit vc' := by
  simp [setCredit, Function.update_apply]

@[simp] theorem setEj_voq (queue : List DsmPacket) :
    (b.setEj vc dst queue).voq = b.voq := rfl

@[simp] theorem setEj_credit (queue : List DsmPacket) :
    (b.setEj vc dst queue).credit = b.credit := rfl

@[simp] theorem setEj_ej (queue : List DsmPacket) (vc' : DsmVc) (dst' : Nat) :
    (b.setEj vc dst queue).ej vc' dst' =
      if vc' = vc ∧ dst' = dst then queue else b.ej vc' dst' := by
  by_cases hvc : vc' = vc
  · subst hvc
    simp [setEj, Function.update_apply]
  · simp [setEj, hvc]

end Frame

/-! ### The two moves -/

/-- One free credit of `dst` goes to the head `p`. -/
def reserveMove (b : FabricBuffers) (vc : DsmVc) (sm dst : Nat) (p : DsmPacket)
    (rest : List DsmPacket) : FabricBuffers :=
  (b.setCredit vc { b.credit vc with
      free := Function.update (b.credit vc).free dst ((b.credit vc).free dst - 1) }).setVoq
    vc sm { b.voq vc sm with
      q := Function.update (b.voq vc sm).q dst
        ({ p with ejectionReservedFlits := p.ejectionReservedFlits + 1 } :: rest) }

/-- The packet as `cycle` appends it to the ejection queue. -/
def arrived (now : Nat) (p : DsmPacket) : DsmPacket :=
  { p with remainingFlits := p.remainingFlits - 1, tailArrivalCycle := now }

/-- The head `p` sends one flit; with its last flit it is delivered. -/
def flitMove (b : FabricBuffers) (now : Nat) (vc : DsmVc) (sm dst : Nat) (p : DsmPacket)
    (rest : List DsmPacket) : FabricBuffers :=
  let sent := { b.setVoq vc sm ((b.voq vc sm).afterFlit dst p rest) with
    granted := b.granted ++ [p.serial] }
  if 1 < p.remainingFlits then sent
  else sent.setEj vc dst (b.ej vc dst ++ [arrived now p])

/-- The moves a grant of `sm` on `vc` is made of. A flit is sent only when its
packet holds a credit for it, or holds all it will ever need. -/
inductive FlitMove (n now : Nat) (vc : DsmVc) (sm : Nat) :
    FabricBuffers → FabricBuffers → Prop
  | reserve {b : FabricBuffers} {dst : Nat} {p : DsmPacket} {rest : List DsmPacket}
      (hsm : sm < n) (hdst : dst < n) (hq : b.queue vc sm dst = p :: rest)
      (hneed : p.ejectionReservedFlits < b.reserveLimit vc p)
      (hfree : 0 < (b.credit vc).free dst) :
      FlitMove n now vc sm b (b.reserveMove vc sm dst p rest)
  | flit {b : FabricBuffers} {dst : Nat} {p : DsmPacket} {rest : List DsmPacket}
      (hsm : sm < n) (hdst : dst < n) (hq : b.queue vc sm dst = p :: rest)
      (hflit : 0 < p.remainingFlits)
      (hheld : min (p.totalFlits - p.remainingFlits + 1) (b.reserveLimit vc p) ≤
        p.ejectionReservedFlits) :
      FlitMove n now vc sm b (b.flitMove now vc sm dst p rest)

/-- The moves of one grant. -/
abbrev GrantMoves (n now : Nat) (vc : DsmVc) (sm : Nat) :
    FabricBuffers → FabricBuffers → Prop :=
  ReflTransGen (FlitMove n now vc sm)

section MoveSimp

variable (b now vc sm dst p rest)

@[simp] theorem reserveMove_queue (vc' : DsmVc) (sm' dst' : Nat) :
    (b.reserveMove vc sm dst p rest).queue vc' sm' dst' =
      if vc' = vc ∧ sm' = sm ∧ dst' = dst then
        { p with ejectionReservedFlits := p.ejectionReservedFlits + 1 } :: rest
      else b.queue vc' sm' dst' := by
  by_cases h : vc' = vc ∧ sm' = sm
  · obtain ⟨rfl, rfl⟩ := h
    simp [reserveMove, queue, Function.update_apply]
  · have h' : ¬ (vc' = vc ∧ sm' = sm ∧ dst' = dst) := fun hc => h ⟨hc.1, hc.2.1⟩
    simp [reserveMove, queue, h, h']

@[simp] theorem reserveMove_ej : (b.reserveMove vc sm dst p rest).ej = b.ej := rfl

@[simp] theorem reserveMove_accepted :
    (b.reserveMove vc sm dst p rest).accepted = b.accepted := rfl

@[simp] theorem reserveMove_granted :
    (b.reserveMove vc sm dst p rest).granted = b.granted := rfl

@[simp] theorem reserveMove_popped :
    (b.reserveMove vc sm dst p rest).popped = b.popped := rfl

@[simp] theorem reserveMove_depth (vc' : DsmVc) :
    ((b.reserveMove vc sm dst p rest).credit vc').depth = (b.credit vc').depth := by
  by_cases h : vc' = vc
  · subst h
    simp [reserveMove]
  · simp [reserveMove, h]

@[simp] theorem reserveMove_free (vc' : DsmVc) (dst' : Nat) :
    ((b.reserveMove vc sm dst p rest).credit vc').free dst' =
      if vc' = vc ∧ dst' = dst then (b.credit vc).free dst - 1
      else (b.credit vc').free dst' := by
  by_cases h : vc' = vc
  · subst h
    simp [reserveMove, Function.update_apply]
  · simp [reserveMove, h]

@[simp] theorem flitMove_queue (vc' : DsmVc) (sm' dst' : Nat) :
    (b.flitMove now vc sm dst p rest).queue vc' sm' dst' =
      if vc' = vc ∧ sm' = sm ∧ dst' = dst then
        if 1 < p.remainingFlits then
          { p with remainingFlits := p.remainingFlits - 1 } :: rest
        else rest
      else b.queue vc' sm' dst' := by
  have hvoq : (b.flitMove now vc sm dst p rest).voq =
      (b.setVoq vc sm ((b.voq vc sm).afterFlit dst p rest)).voq := by
    unfold flitMove
    split <;> rfl
  simp only [queue, hvoq, setVoq_voq]
  by_cases h : vc' = vc ∧ sm' = sm
  · obtain ⟨rfl, rfl⟩ := h
    simp
  · have h' : ¬ (vc' = vc ∧ sm' = sm ∧ dst' = dst) := fun hc => h ⟨hc.1, hc.2.1⟩
    simp [h, h']

@[simp] theorem flitMove_ej (vc' : DsmVc) (dst' : Nat) :
    (b.flitMove now vc sm dst p rest).ej vc' dst' =
      if vc' = vc ∧ dst' = dst ∧ ¬ 1 < p.remainingFlits then
        b.ej vc dst ++ [arrived now p]
      else b.ej vc' dst' := by
  unfold flitMove
  by_cases hlast : 1 < p.remainingFlits
  · simp [hlast]
  · simp [hlast]

@[simp] theorem flitMove_credit :
    (b.flitMove now vc sm dst p rest).credit = b.credit := by
  unfold flitMove
  split <;> rfl

@[simp] theorem flitMove_accepted :
    (b.flitMove now vc sm dst p rest).accepted = b.accepted := by
  unfold flitMove
  split <;> rfl

@[simp] theorem flitMove_granted :
    (b.flitMove now vc sm dst p rest).granted = b.granted ++ [p.serial] := by
  unfold flitMove
  split <;> rfl

@[simp] theorem flitMove_popped :
    (b.flitMove now vc sm dst p rest).popped = b.popped := by
  unfold flitMove
  split <;> rfl

end MoveSimp

/-! ### What moves leave alone -/

theorem FlitMove.queue_other (h : FlitMove n now vc sm b b')
    (hne : ¬ (vc' = vc ∧ sm' = sm)) (dst' : Nat) :
    b'.queue vc' sm' dst' = b.queue vc' sm' dst' := by
  cases h with
  | reserve =>
    rw [reserveMove_queue, if_neg]
    exact fun hc => hne ⟨hc.1, hc.2.1⟩
  | flit =>
    rw [flitMove_queue, if_neg]
    exact fun hc => hne ⟨hc.1, hc.2.1⟩

theorem GrantMoves.queue_other (h : GrantMoves n now vc sm b b')
    (hne : ¬ (vc' = vc ∧ sm' = sm)) (dst' : Nat) :
    b'.queue vc' sm' dst' = b.queue vc' sm' dst' := by
  induction h with
  | refl => rfl
  | tail _ hmove ih => rw [hmove.queue_other hne, ih]

theorem FlitMove.credit_other (h : FlitMove n now vc sm b b') (hne : vc' ≠ vc) :
    b'.credit vc' = b.credit vc' := by
  cases h with
  | reserve => simp [reserveMove, hne]
  | flit => rw [flitMove_credit]

/-- A grant only adds to the history of granted flits. -/
theorem GrantMoves.granted_prefix (h : GrantMoves n now vc sm b b') :
    b.granted <+: b'.granted := by
  induction h with
  | refl => exact List.prefix_rfl
  | tail _ hmove ih =>
    cases hmove with
    | reserve => exact ih
    | flit =>
      rw [flitMove_granted]
      exact ih.trans (List.prefix_append _ _)

end FabricBuffers

end FlashGpuSim
