import FlashGpuSim.Dsm.FabricInvariant

/-!
The code of `cycle` refines the moves: every grant is a sequence of moves of the
granted SM on the granted VC, and it can only stop at an assertion about a packet
that has no flits at all.
-/

namespace FlashGpuSim

open Lib Relation

namespace FabricBuffers

variable {b b' : FabricBuffers} {n now : Nat} {cfg : DsmFabricConfig} {vc : DsmVc}
  {sm dst : Nat} {p selected : DsmPacket} {rest : List DsmPacket} {dsts : List Nat}

/-- Every queued packet has at least one flit. -/
def AllFlits (b : FabricBuffers) : Prop :=
  ∀ vc src dst, ∀ p ∈ b.queue vc src dst, 0 < p.totalFlits

theorem FlitMove.allFlits (hmove : FlitMove n now vc sm b b') (h : b.AllFlits) :
    b'.AllFlits := by
  cases hmove with
  | @reserve dst p rest _ _ hq _ _ =>
    refine forall_replaced h ?_ (reserveMove_queue b vc sm dst p rest)
    intro r hr
    rcases List.mem_cons.mp hr with rfl | hr
    · exact h vc sm dst p (by rw [hq]; exact List.mem_cons_self)
    · exact h vc sm dst r (by rw [hq]; exact List.mem_cons_of_mem p hr)
  | @flit dst p rest _ _ hq _ _ =>
    refine forall_replaced h ?_ (flitMove_queue b now vc sm dst p rest)
    intro r hr
    have hp : 0 < p.totalFlits := h vc sm dst p (by rw [hq]; exact List.mem_cons_self)
    have hrest : ∀ r ∈ rest, 0 < r.totalFlits := fun r hr =>
      h vc sm dst r (by rw [hq]; exact List.mem_cons_of_mem p hr)
    split at hr
    · rcases List.mem_cons.mp hr with rfl | hr
      · exact hp
      · exact hrest r hr
    · exact hrest r hr

theorem GrantMoves.allFlits (hmoves : GrantMoves n now vc sm b b') (h : b.AllFlits) :
    b'.AllFlits := by
  induction hmoves with
  | refl => exact h
  | tail _ hmove ih => exact hmove.allFlits ih

/-- How a grant may stop: at a flit assertion of `grant_flit`, and only when some
queued packet has no flits. -/
def FlitFailure (b : FabricBuffers) (e : Assertion) : Prop :=
  (e = .occupied ∨ e = .flitsRemain) ∧ ¬ b.AllFlits

theorem GrantMoves.flitFailure {e : Assertion} (hmoves : GrantMoves n now vc sm b b')
    (h : b'.FlitFailure e) : b.FlitFailure e :=
  ⟨h.1, fun hall => h.2 (hmoves.allFlits hall)⟩

/-- The head of the queue holds a credit for its next flit. -/
def Ready (b : FabricBuffers) (vc : DsmVc) (sm dst : Nat) : Prop :=
  ∀ p rest, b.queue vc sm dst = p :: rest →
    min (p.totalFlits - p.remainingFlits + 1) (b.reserveLimit vc p) ≤
      p.ejectionReservedFlits

/-! ### The reservations -/

theorem reserveFlit_eq (hq : b.queue vc sm dst = p :: rest)
    (hfree : 0 < (b.credit vc).free dst) :
    b.reserveFlit vc sm dst = .ok (b.reserveMove vc sm dst p rest) := by
  have hq' : (b.voq vc sm).q dst = p :: rest := hq
  simp only [reserveFlit, FlitCreditCounters.take_eq hfree, require, if_true, reserveMove,
    BoundedVoq.modifyFront, hq', List.modifyHead_cons]
  rfl

/-- A head that has just reserved one more flit is ready to send. -/
theorem ready_reserveMove (h : b.WF n cfg) (hq : b.queue vc sm dst = p :: rest) :
    (b.reserveMove vc sm dst p rest).Ready vc sm dst := by
  intro r tail hr
  rw [reserveMove_queue, if_pos ⟨rfl, rfl, rfl⟩] at hr
  obtain ⟨rfl, rfl⟩ := List.cons.inj hr
  have hcov := (h.streaming vc sm dst p (by rw [hq]; exact List.mem_cons_self)).covered
  rw [FabricBuffers.reserveLimit, reserveMove_depth, h.depth]
  simp only
  omega

theorem ready_of_full (hq : b.queue vc sm dst = p :: rest)
    (hfull : ¬ p.ejectionReservedFlits < b.reserveLimit vc p) : b.Ready vc sm dst := by
  intro r tail hr
  obtain ⟨rfl, rfl⟩ := List.cons.inj (hq.symm.trans hr)
  omega

/-- What a move on `dst` leaves alone at another destination. -/
def SameAt (b b' : FabricBuffers) (vc : DsmVc) (sm dst : Nat) : Prop :=
  b'.queue vc sm dst = b.queue vc sm dst ∧
    (b'.credit vc).free dst = (b.credit vc).free dst

theorem Ready.of_sameAt (h : b.Ready vc sm dst) (hwf : b.WF n cfg) (hwf' : b'.WF n cfg)
    (hsame : b.SameAt b' vc sm dst) : b'.Ready vc sm dst := by
  intro p rest hq
  have hready := h p rest (hsame.1.symm.trans hq)
  rw [hwf.reserveLimit] at hready
  rw [hwf'.reserveLimit]
  exact hready

theorem creditTest_eq_true :
    b.creditTest vc dst p = true ↔
      (p.ejectionReservedFlits < b.reserveLimit vc p → 0 < (b.credit vc).free dst) := by
  unfold creditTest FlitCreditCounters.has
  by_cases hneed : p.ejectionReservedFlits < b.reserveLimit vc p
  · by_cases hfree : 1 ≤ (b.credit vc).free dst
    · have hpos : 0 < (b.credit vc).free dst := hfree
      simp [hneed, hfree, hpos]
    · have hzero : (b.credit vc).free dst = 0 := by omega
      simp [hneed, hzero]
  · simp [hneed]

theorem creditTest_of_sameAt (hwf : b.WF n cfg) (hwf' : b'.WF n cfg)
    (hsame : b.SameAt b' vc sm dst) :
    b'.creditTest vc dst p = b.creditTest vc dst p := by
  rw [Bool.eq_iff_iff, creditTest_eq_true, creditTest_eq_true, hwf.reserveLimit,
    hwf'.reserveLimit, hsame.2]

theorem reserveHead_spec (now : Nat) (h : b.WF n cfg) (hsm : sm < n) (hdst : dst < n)
    (hq : b.queue vc sm dst = p :: rest) (htest : b.creditTest vc dst p = true) :
    Outcome (b.reserveHead vc sm dst)
      (fun b' => GrantMoves n now vc sm b b' ∧ b'.Ready vc sm dst ∧
        b'.queue vc sm dst ≠ [] ∧ b'.granted = b.granted ∧
        ∀ d, d ≠ dst → b.SameAt b' vc sm d)
      (fun _ => False) := by
  have hfront : (b.voq vc sm).front dst = some p := by rw [front_eq_head, hq]; rfl
  unfold reserveHead
  rw [hfront]
  by_cases hneed : p.ejectionReservedFlits < b.reserveLimit vc p
  · have hfree : 0 < (b.credit vc).free dst := creditTest_eq_true.mp htest hneed
    simp only [hneed, if_true]
    rw [reserveFlit_eq hq hfree]
    refine ⟨.single (.reserve hsm hdst hq hneed hfree), ready_reserveMove h hq, ?_, rfl, ?_⟩
    · simp
    · intro d hd
      simp [SameAt, hd]
  · simp only [hneed, if_false]
    refine ⟨.refl, ready_of_full hq hneed, ?_, rfl, fun d _ => ⟨rfl, rfl⟩⟩
    simp [hq]

/-- The reservation loop makes every head of the grant ready. Each iteration
touches its own destination only, so the tests made before the loop still hold. -/
theorem reserveHeads_spec (now : Nat) (h : b.WF n cfg) (hsm : sm < n) (hnodup : dsts.Nodup)
    (hheads : ∀ d ∈ dsts, d < n ∧ ∃ p rest, b.queue vc sm d = p :: rest ∧
      b.creditTest vc d p = true) :
    Outcome (dsts.foldlM (fun b dst => b.reserveHead vc sm dst) b)
      (fun b' => GrantMoves n now vc sm b b' ∧ b'.granted = b.granted ∧
        ∀ d ∈ dsts, b'.Ready vc sm d ∧ b'.queue vc sm d ≠ [])
      (fun _ => False) := by
  let inv : List Nat → FabricBuffers → Prop := fun todo b' =>
    GrantMoves n now vc sm b b' ∧ b'.granted = b.granted ∧ todo.Nodup ∧ todo ⊆ dsts ∧
      (∀ d ∈ dsts, d ∉ todo → b'.Ready vc sm d ∧ b'.queue vc sm d ≠ []) ∧
      (∀ d ∈ todo, b.SameAt b' vc sm d)
  have hloop : Outcome (dsts.foldlM (fun b dst => b.reserveHead vc sm dst) b) (inv [])
      (fun _ => False) := by
    apply outcome_foldlM inv
    · rintro d rest b' ⟨hmoves, hgr, hnd, hsub, hdone, hsame⟩
      obtain ⟨hd, p, tail, hq, htest⟩ := hheads d (hsub List.mem_cons_self)
      have hwf' : b'.WF n cfg := hmoves.wf h
      have hd' := hsame d List.mem_cons_self
      have hspec := reserveHead_spec now hwf' hsm hd (hd'.1.trans hq)
        ((creditTest_of_sameAt h hwf' hd').trans htest)
      refine hspec.imp ?_
      rintro b'' ⟨hmoves', hready, hne, hgr', hother⟩
      have hnotin : d ∉ rest := (List.nodup_cons.mp hnd).1
      refine ⟨hmoves.trans hmoves', hgr'.trans hgr, (List.nodup_cons.mp hnd).2,
        fun x hx => hsub (List.mem_cons_of_mem d hx), ?_, ?_⟩
      · intro x hx hxrest
        by_cases hxd : x = d
        · subst hxd
          exact ⟨hready, hne⟩
        · have hxdone := hdone x hx (by simp [hxd, hxrest])
          have hxsame := hother x hxd
          exact ⟨hxdone.1.of_sameAt hwf' (hmoves'.wf hwf') hxsame, hxsame.1 ▸ hxdone.2⟩
      · intro x hx
        have hxd : x ≠ d := fun hc => hnotin (hc ▸ hx)
        have hxsame := hsame x (List.mem_cons_of_mem d hx)
        have hxother := hother x hxd
        exact ⟨hxother.1.trans hxsame.1, hxother.2.trans hxsame.2⟩
    · exact ⟨.refl, rfl, hnodup, fun _ hx => hx, fun d hd hnot => absurd hd hnot,
        fun _ _ => ⟨rfl, rfl⟩⟩
  refine hloop.imp ?_
  rintro b' ⟨hmoves, hgr, -, -, hdone, -⟩
  exact ⟨hmoves, hgr, fun d hd => hdone d hd (by simp)⟩

/-! ### The grant -/

theorem grantBranch_spec (now : Nat) (h : b.WF n cfg) (hsm : sm < n) (hdst : dst < n)
    (hready : b.Ready vc sm dst) (hne : b.queue vc sm dst ≠ []) :
    Outcome (b.grantBranch now vc sm dst)
      (fun r => GrantMoves n now vc sm b r.1 ∧
        r.1.granted.length = b.granted.length + 1 ∧
        ∀ d, d ≠ dst → b.SameAt r.1 vc sm d)
      b.FlitFailure := by
  obtain ⟨p, rest, hq⟩ := List.exists_cons_of_ne_nil hne
  have hfront : (b.voq vc sm).front dst = some p := by rw [front_eq_head, hq]; rfl
  have hq' : (b.voq vc sm).q dst = p :: rest := hq
  have hin : dst < (b.voq vc sm).nDst := by rw [h.nDst]; exact hdst
  have hp : p ∈ b.queue vc sm dst := by rw [hq]; exact List.mem_cons_self
  unfold grantBranch
  rw [hfront]
  by_cases hflit : 0 < p.remainingFlits
  · have hocc : 0 < (b.voq vc sm).occ dst :=
      BoundedVoq.occ_pos (h.voq_wf vc sm) (by rw [h.limit]; exact h.limit_pos vc) hp hflit
    have hmove : FlitMove n now vc sm b (b.flitMove now vc sm dst p rest) :=
      .flit hsm hdst hq hflit (hready p rest hq)
    have hspec : GrantMoves n now vc sm b (b.flitMove now vc sm dst p rest) ∧
        (b.flitMove now vc sm dst p rest).granted.length = b.granted.length + 1 ∧
        ∀ d, d ≠ dst → b.SameAt (b.flitMove now vc sm dst p rest) vc sm d := by
      refine ⟨.single hmove, by simp, fun d hd => ?_⟩
      simp [SameAt, hd]
    simp only [BoundedVoq.grantFlit_eq hin hq' hocc hflit]
    unfold flitMove at hspec
    by_cases hmore : 1 < p.remainingFlits
    · simp only [DsmPacket.flitPacket_remaining, hmore, if_true] at hspec ⊢
      exact hspec
    · simp only [DsmPacket.flitPacket_remaining, hmore, if_false] at hspec ⊢
      exact hspec
  · -- a head without flits stops `grant_flit`
    have hzero : ¬ b.AllFlits := fun hall =>
      hflit ((h.streaming vc sm dst p hp).remaining_pos (hall vc sm dst p hp))
    have hfail : Outcome ((b.voq vc sm).grantFlit dst) (fun _ => False) b.FlitFailure := by
      unfold BoundedVoq.grantFlit
      apply outcome_bind
      apply outcome_require
      · intro _
        rw [hq']
        apply outcome_bind
        apply outcome_require
        · intro _
          apply outcome_bind
          apply outcome_require
          · intro hc
            exact absurd (of_decide_eq_true hc) hflit
          · exact fun _ => ⟨.inr rfl, hzero⟩
        · exact fun _ => ⟨.inl rfl, hzero⟩
      · intro hc
        exact absurd hin (of_decide_eq_false hc)
    apply outcome_bind
    exact hfail.imp (fun _ hfalse => hfalse.elim)

/-- The branches of one grant, each with its own destination. -/
theorem grantBranches_spec (now : Nat) (h : b.WF n cfg) (hsm : sm < n) (hnodup : dsts.Nodup)
    (hready : ∀ d ∈ dsts, d < n ∧ b.Ready vc sm d ∧ b.queue vc sm d ≠ []) :
    Outcome (b.grantBranches now vc sm dsts)
      (fun r => GrantMoves n now vc sm b r.1 ∧
        r.1.granted.length = b.granted.length + dsts.length)
      b.FlitFailure := by
  let inv : List Nat → FabricBuffers × Bool → Prop := fun todo r =>
    GrantMoves n now vc sm b r.1 ∧ todo.Nodup ∧
      (∀ d ∈ todo, d < n ∧ r.1.Ready vc sm d ∧ r.1.queue vc sm d ≠ []) ∧
      r.1.granted.length + todo.length = b.granted.length + dsts.length
  have hloop : Outcome (b.grantBranches now vc sm dsts) (inv []) b.FlitFailure := by
    unfold grantBranches
    apply outcome_foldlM inv
    · rintro d rest ⟨b', anyTail⟩ ⟨hmoves, hnd, htodo, hcount⟩
      obtain ⟨hd, hrd, hne⟩ := htodo d List.mem_cons_self
      have hwf' : b'.WF n cfg := hmoves.wf h
      have hnotin : d ∉ rest := (List.nodup_cons.mp hnd).1
      apply outcome_bind
      refine (grantBranch_spec now hwf' hsm hd hrd hne).mono ?_
        (fun e he => hmoves.flitFailure he)
      rintro ⟨b'', tail⟩ ⟨hmoves', hgr, hother⟩
      refine ⟨hmoves.trans hmoves', (List.nodup_cons.mp hnd).2, ?_, ?_⟩
      · intro x hx
        obtain ⟨hxn, hxready, hxne⟩ := htodo x (List.mem_cons_of_mem d hx)
        have hxsame := hother x (fun hc => hnotin (hc ▸ hx))
        exact ⟨hxn, hxready.of_sameAt hwf' (hmoves'.wf hwf') hxsame, hxsame.1 ▸ hxne⟩
      · simp only [List.length_cons] at hcount hgr ⊢
        omega
    · exact ⟨.refl, hnodup, hready, rfl⟩
  refine hloop.imp ?_
  rintro ⟨b', anyTail⟩ ⟨hmoves, -, -, hcount⟩
  exact ⟨hmoves, hcount⟩

/-- The grant loop. Only a grant with a single destination goes around twice, so
the follow-up packet's reservation is the only one to make. -/
theorem grantLoop_spec (now left : Nat) (hleft : 0 < left) (hsingle : 1 < left → dsts = [dst])
    (h : b.WF n cfg) (hsm : sm < n) (hnodup : dsts.Nodup) (hne : dsts ≠ [])
    (hready : ∀ d ∈ dsts, d < n ∧ b.Ready vc sm d ∧ b.queue vc sm d ≠ []) :
    Outcome (grantLoop now vc sm dst dsts selected left b)
      (fun b' => GrantMoves n now vc sm b b' ∧ b.granted.length < b'.granted.length)
      b.FlitFailure := by
  induction left generalizing b with
  | zero => omega
  | succ left ih =>
    have hlen : 0 < dsts.length := List.length_pos_iff.mpr hne
    unfold grantLoop
    apply outcome_bind
    refine (grantBranches_spec now h hsm hnodup hready).imp ?_
    rintro ⟨b', anyTail⟩ ⟨hmoves, hcount⟩
    have hwf' : b'.WF n cfg := hmoves.wf h
    simp only at hcount
    have hgrew : b.granted.length < b'.granted.length := by omega
    have hstop : GrantMoves n now vc sm b b' ∧ b.granted.length < b'.granted.length :=
      ⟨hmoves, hgrew⟩
    by_cases hend : (!anyTail || left == 0) = true
    · simp only [hend, if_true]
      exact hstop
    · simp only [hend]
      have hmore : 0 < left := by
        simp only [Bool.or_eq_true, beq_iff_eq, not_or] at hend
        omega
      have hdsts : dsts = [dst] := hsingle (by omega)
      have hdst : dst < n := (hready dst (by simp [hdsts])).1
      cases hq : b'.queue vc sm dst with
      | nil =>
        rw [show (b'.voq vc sm).front dst = none by rw [front_eq_head, hq]; rfl]
        exact hstop
      | cons next tail =>
        rw [show (b'.voq vc sm).front dst = some next by rw [front_eq_head, hq]; rfl]
        -- the next iteration starts from `b''`, where the follow-up packet is ready
        have hnext : ∀ b'', GrantMoves n now vc sm b' b'' → b''.Ready vc sm dst →
            b''.queue vc sm dst ≠ [] →
            Outcome (grantLoop now vc sm dst dsts selected left b'')
              (fun b' => GrantMoves n now vc sm b b' ∧ b.granted.length < b'.granted.length)
              b.FlitFailure := by
          intro b'' hmoves' hrd hqne
          have hpre := hmoves'.granted_prefix.length_le
          refine (ih hmore (fun _ => hdsts) (hmoves'.wf hwf') (by
            intro d hd
            rw [hdsts, List.mem_singleton] at hd
            subst hd
            exact ⟨hdst, hrd, hqne⟩)).mono ?_ ?_
          · rintro c ⟨hc, hlt⟩
            exact ⟨(hmoves.trans hmoves').trans hc, by omega⟩
          · exact fun e he => hmoves.flitFailure (hmoves'.flitFailure he)
        simp only
        by_cases hsame : coalesces selected next = true
        · simp only [hsame, if_true]
          by_cases hneed : next.ejectionReservedFlits < b'.reserveLimit vc next
          · simp only [hneed, if_true]
            by_cases hfree : (b'.credit vc).has dst 1 = true
            · simp only [hfree, if_true]
              have hpos : 0 < (b'.credit vc).free dst := of_decide_eq_true hfree
              rw [reserveFlit_eq hq hpos]
              exact hnext _ (.single (.reserve hsm hdst hq hneed hpos))
                (ready_reserveMove hwf' hq) (by simp)
            · simp only [hfree]
              exact hstop
          · simp only [hneed, if_false]
            exact hnext b' .refl (ready_of_full hq hneed) (by simp [hq])
        · simp only [hsame]
          exact hstop

theorem packetCap_pos (flitBytes nDsts : Nat) (selected : DsmPacket) :
    0 < packetCap flitBytes nDsts selected := by
  unfold packetCap
  split
  · rename_i h
    split
    · omega
    · split
      · rename_i hdata
        simp only [Bool.and_eq_true, decide_eq_true_eq] at hdata
        exact Nat.div_pos (by omega) h.2.2
      · omega
  · omega

theorem packetCap_single (flitBytes nDsts : Nat) (selected : DsmPacket)
    (h : 1 < packetCap flitBytes nDsts selected) : nDsts = 1 := by
  unfold packetCap at h
  split at h
  · rename_i hc
    exact hc.1
  · omega

end FabricBuffers

end FlashGpuSim
