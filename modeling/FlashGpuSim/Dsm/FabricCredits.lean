import FlashGpuSim.Dsm.FabricRun

/-!
The ejection credits over whole runs: they are conserved, and whether the packets
queued for a destination can exhaust them before one of them is complete.
-/

namespace FlashGpuSim

open Lib

namespace FabricBuffers

/-! ### Credits of the other virtual channel -/

variable {b : FabricBuffers} {vc : DsmVc} {sm dst now : Nat}

/-- `b'` has the credits of `b` on every VC but `vc`. -/
def SameCredits (vc : DsmVc) (b b' : FabricBuffers) : Prop :=
  ∀ vc', vc' ≠ vc → b'.credit vc' = b.credit vc'

theorem reserveFlit_sameCredits (b : FabricBuffers) (vc : DsmVc) (sm dst : Nat) :
    Outcome (b.reserveFlit vc sm dst) (SameCredits vc b) (fun _ => True) := by
  unfold reserveFlit
  apply outcome_bind
  apply outcome_require
  · intro _ vc' hne
    simp [hne]
  · exact fun _ => trivial

theorem reserveHead_sameCredits (b : FabricBuffers) (vc : DsmVc) (sm dst : Nat) :
    Outcome (b.reserveHead vc sm dst) (SameCredits vc b) (fun _ => True) := by
  unfold reserveHead
  split
  · trivial
  · split
    · exact reserveFlit_sameCredits b vc sm dst
    · exact fun _ _ => rfl

theorem grantBranch_sameCredits (b : FabricBuffers) (now : Nat) (vc : DsmVc)
    (sm dst : Nat) :
    Outcome (b.grantBranch now vc sm dst) (fun r => SameCredits vc b r.1)
      (fun _ => True) := by
  unfold grantBranch
  split
  · exact fun _ _ => rfl
  · apply outcome_bind
    apply outcome_of_ok_imp
    rintro ⟨done, voq⟩ -
    cases done with
    | none => exact fun _ _ => rfl
    | some p => exact fun _ _ => rfl

theorem grantLoop_sameCredits (now : Nat) (vc : DsmVc) (sm dst : Nat) (dsts : List Nat)
    (selected : DsmPacket) (left : Nat) (b : FabricBuffers) :
    Outcome (grantLoop now vc sm dst dsts selected left b) (SameCredits vc b)
      (fun _ => True) := by
  induction left generalizing b with
  | zero => exact fun _ _ => rfl
  | succ left ih =>
    have hbranches : Outcome (b.grantBranches now vc sm dsts)
        (fun r => SameCredits vc b r.1) (fun _ => True) := by
      unfold grantBranches
      apply outcome_foldlM (fun _ (r : FabricBuffers × Bool) => SameCredits vc b r.1)
      · rintro d rest ⟨b', anyTail⟩ hb'
        apply outcome_bind
        refine (grantBranch_sameCredits b' now vc sm d).imp ?_
        rintro ⟨b'', tail⟩ hb'' vc' hne
        exact (hb'' vc' hne).trans (hb' vc' hne)
      · exact fun _ _ => rfl
    unfold grantLoop
    apply outcome_bind
    refine hbranches.imp ?_
    rintro ⟨b', anyTail⟩ hb'
    have hnext : ∀ b'', SameCredits vc b' b'' →
        Outcome (grantLoop now vc sm dst dsts selected left b'') (SameCredits vc b)
          (fun _ => True) := fun b'' hb'' =>
      (ih b'').imp fun c hc vc' hne =>
        (hc vc' hne).trans ((hb'' vc' hne).trans (hb' vc' hne))
    simp only
    split
    · exact hb'
    · split
      · exact hb'
      · split
        · split
          · split
            · apply outcome_bind
              exact (reserveFlit_sameCredits b' vc sm dst).imp hnext
            · exact hb'
          · exact hnext b' (fun _ _ => rfl)
        · exact hb'

end FabricBuffers

namespace DsmFabric

variable {f : DsmFabric} {topo : GpuTopology} {gpc : Nat} {cfg : DsmFabricConfig}

/-- Serving a request changes credits of the request's own VC only, in any state. -/
theorem serve_sameCredits (f : DsmFabric) (now : Nat) (r : Request) :
    Outcome (f.serve now r)
      (fun f' => FabricBuffers.SameCredits r.vc f.toFabricBuffers f'.toFabricBuffers)
      (fun _ => True) := by
  unfold serve
  split
  · trivial
  · rename_i selected _
    simp only
    split
    · have hreserve : Outcome
          ((f.multicastDsts f.n r selected).foldlM
            (fun b dst => b.reserveHead r.vc r.sm dst) f.toFabricBuffers)
          (FabricBuffers.SameCredits r.vc f.toFabricBuffers) (fun _ => True) := by
        apply outcome_foldlM (fun _ b => FabricBuffers.SameCredits r.vc f.toFabricBuffers b)
        · intro d rest b hb
          refine (FabricBuffers.reserveHead_sameCredits b r.vc r.sm d).imp ?_
          intro b' hb' vc' hne
          exact (hb' vc' hne).trans (hb vc' hne)
        · exact fun _ _ => rfl
      apply outcome_bind
      refine hreserve.imp ?_
      intro b hb
      apply outcome_bind
      refine (FabricBuffers.grantLoop_sameCredits now r.vc r.sm r.dst _ selected _ b).imp ?_
      intro b' hb' vc' hne
      exact (hb' vc' hne).trans (hb vc' hne)
    · exact fun _ _ => rfl

/-- The assertions of `give` and `take` hold in every operation. -/
theorem step_credit_assertions (hinv : f.Inv) {op : Op} (hop : FreshOp op) :
    f.step op ≠ .error .creditWithinDepth ∧ f.step op ≠ .error .creditReserved := by
  have hspec := step_inv hinv hop
  constructor
  · intro herr
    have hfail := (hspec.of_error herr).1
    simp at hfail
  · intro herr
    have hfail := (hspec.of_error herr).1
    simp at hfail

/-- Conservation of the ejection credits. In every reachable state and for every
destination, the free credits, the credits of the packets in the ejection queue and
those of all packets still queued for it add up to the ejection depth. A packet in
the ejection queue holds exactly what it needs. No operation on one VC touches the
credits of the other, and so neither `give` nor `take` ever fails its assertion. -/
theorem ejection_credits_conserved
    (h : Reachable topo gpc cfg (fun _ op => FreshOp op) f) :
    (∀ vc dst, dst < f.n →
      f.creditRemaining dst vc + reservedFlits (f.ej vc dst) +
        ∑ src ∈ Finset.range f.n, reservedFlits (f.queue vc src dst) =
          f.cfg.ejectionVcFlits) ∧
    (∀ vc dst, ∀ p ∈ f.ej vc dst,
      p.ejectionReservedFlits = min p.totalFlits f.cfg.ejectionVcFlits) ∧
    (∀ packet f', f.inject packet = .ok f' → f'.credit = f.credit) ∧
    (∀ dst vc r f', f.pop dst vc = .ok (r, f') →
      FabricBuffers.SameCredits vc f.toFabricBuffers f'.toFabricBuffers) ∧
    (∀ (g : DsmFabric) now r g', g.serve now r = .ok g' →
      FabricBuffers.SameCredits r.vc g.toFabricBuffers g'.toFabricBuffers) ∧
    (∀ op, FreshOp op →
      f.step op ≠ .error .creditWithinDepth ∧ f.step op ≠ .error .creditReserved) := by
  have hinv := h.inv (fun _ _ hop => hop)
  refine ⟨?_, fun vc dst p hp => (hinv.buffers.delivered vc dst p hp).2.2, ?_, ?_, ?_,
    fun op hop => step_credit_assertions hinv hop⟩
  · intro vc dst hdst
    rw [creditRemaining, if_pos hdst]
    exact hinv.buffers.balance vc dst hdst
  · intro packet f' hok
    rw [inject_eq hinv] at hok
    obtain rfl := Except.ok.inj hok
    split
    · rfl
    · rfl
  · intro dst vc r f' hok vc' hne
    rw [pop_eq hinv] at hok
    obtain ⟨-, rfl⟩ := Prod.mk.inj (Except.ok.inj hok)
    cases htop : f.top dst vc with
    | none => rfl
    | some p => simp [poppedHead, FabricBuffers.popMove, hne]
  · exact fun g now r g' hok => (serve_sameCredits g now r).of_ok hok

/-- Two SMs sent to SM 2, one packet arrived and one is half sent. -/
def creditRun : List Op :=
  [.inject (mkPkt 0 2 .writeData 32 0), .inject (mkPkt 1 2 .writeData 64 32), .cycle 2]

theorem ejection_credits_conserved_witness :
    ∃ f : DsmFabric,
      (f.creditRemaining 2 .request = 0 ∧ (f.ej .request 2).length = 1 ∧
        (f.queue .request 1 2).length = 1) ∧
      f.creditRemaining 2 .request + reservedFlits (f.ej .request 2) +
        ∑ src ∈ Finset.range f.n, reservedFlits (f.queue .request src 2) =
          f.cfg.ejectionVcFlits := by
  have hrun : ((runFrom (oneGpc 3 (by decide) (by decide)) 0 { ejectionVcFlits := 2 }
      (fun _ op => FreshOp op) creditRun).any fun f =>
        decide (f.creditRemaining 2 .request = 0 ∧ (f.ej .request 2).length = 1 ∧
          (f.queue .request 1 2).length = 1 ∧ 2 < f.n)) = true := by
    decide
  obtain ⟨f, hreach, hfree, hej, hq, hn⟩ := exists_reachable hrun
  exact ⟨f, ⟨hfree, hej, hq⟩, (ejection_credits_conserved hreach).1 .request 2 hn⟩

/-! ### Whether the queued packets can exhaust the credits -/

/-- The head of a VOQ passes the credit test: it holds all it will need, or its
destination has a free credit. -/
def headGrantable (f : DsmFabric) (vc : DsmVc) (src dst : Nat) : Bool :=
  ((f.voq vc src).front dst).any fun p =>
    decide (p.ejectionReservedFlits = min p.totalFlits f.cfg.ejectionVcFlits) ||
      decide (0 < (f.credit vc).free dst)

/-- Once everything delivered on `vc` is popped, some head of a non-empty VOQ can
be granted. -/
def CreditDeadlockFree (f : DsmFabric) (vc : DsmVc) : Prop :=
  (∀ dst < f.n, f.ej vc dst = []) →
    (∃ src < f.n, ∃ dst < f.n, f.queue vc src dst ≠ []) →
      ∃ src < f.n, ∃ dst < f.n, f.headGrantable vc src dst = true

instance (f : DsmFabric) (vc : DsmVc) : Decidable (CreditDeadlockFree f vc) := by
  unfold CreditDeadlockFree
  infer_instance

/-- What a VOQ may hold without its head being complete: one credit less than the
head needs, and what packets behind it reserved before a read command passed them. -/
def partialDemand (depth : Nat) : List DsmPacket → Nat
  | [] => 0
  | p :: behind => (min p.totalFlits depth - 1) + reservedFlits behind

/-- Some destination with queued packets can hold a partial reservation of every
source at once and still has a credit left. -/
def RoomToFinish (f : DsmFabric) (vc : DsmVc) : Prop :=
  ∃ dst < f.n, (∃ src < f.n, f.queue vc src dst ≠ []) ∧
    ∑ src ∈ Finset.range f.n,
      partialDemand f.cfg.ejectionVcFlits (f.queue vc src dst) < f.cfg.ejectionVcFlits

/-- A queue that holds more than its partial demand has a complete head. -/
theorem head_complete {depth : Nat} {queue : List DsmPacket}
    (hstream : ∀ p ∈ queue, Streaming depth p)
    (hmore : partialDemand depth queue < reservedFlits queue) :
    ∃ p rest, queue = p :: rest ∧ p.ejectionReservedFlits = min p.totalFlits depth := by
  cases queue with
  | nil => simp [partialDemand] at hmore
  | cons p rest =>
    refine ⟨p, rest, rfl, ?_⟩
    have hle := (hstream p List.mem_cons_self).reserved_le
    simp only [partialDemand, reservedFlits_cons] at hmore
    omega

/-- The packets on their way to a destination cannot exhaust its credits while each
of them is one credit short, as long as the partial demands leave a credit. -/
theorem credit_deadlock_free_of_room {vc : DsmVc}
    (h : Reachable topo gpc cfg (fun _ op => FreshOp op) f) (hroom : f.RoomToFinish vc) :
    CreditDeadlockFree f vc := by
  have hinv := h.inv (fun _ _ hop => hop)
  intro hej _
  obtain ⟨dst, hdst, ⟨src, hsrc, hne⟩, hsum⟩ := hroom
  have hbal := hinv.buffers.balance vc dst hdst
  rw [hej dst hdst, reservedFlits_nil, Nat.add_zero] at hbal
  by_cases hfree : 0 < (f.credit vc).free dst
  · obtain ⟨p, rest, hq⟩ := List.exists_cons_of_ne_nil hne
    refine ⟨src, hsrc, dst, hdst, ?_⟩
    rw [headGrantable, FabricBuffers.front_eq_head, hq]
    simp [hfree]
  · -- every credit is held, so some source holds more than its partial demand
    have hall : ∑ src ∈ Finset.range f.n,
        partialDemand f.cfg.ejectionVcFlits (f.queue vc src dst) <
          ∑ src ∈ Finset.range f.n, reservedFlits (f.queue vc src dst) := by
      have hheld : f.reservedInVoqs f.n vc dst = f.cfg.ejectionVcFlits := by omega
      rw [FabricBuffers.reservedInVoqs] at hheld
      omega
    obtain ⟨s, hs, hmore⟩ := Finset.exists_lt_of_sum_lt hall
    obtain ⟨p, rest, hq, hfull⟩ := head_complete (hinv.buffers.streaming vc s dst) hmore
    refine ⟨s, Finset.mem_range.mp hs, dst, hdst, ?_⟩
    rw [headGrantable, FabricBuffers.front_eq_head, hq]
    simp [hfull]

theorem credit_deadlock_free_of_room_witness :
    ∃ f : DsmFabric,
      ((f.queue .request 0 1).length = 1 ∧ f.headGrantable .request 0 1 = true) ∧
        CreditDeadlockFree f .request := by
  have hrun : ((runFrom (oneGpc 2 (by decide) (by decide)) 0 { ejectionVcFlits := 2 }
      (fun _ op => FreshOp op) [.inject (mkPkt 0 1 .writeData 64 0), .cycle 2]).any fun f =>
        decide (((f.queue .request 0 1).length = 1 ∧ f.headGrantable .request 0 1 = true) ∧
          1 < f.n ∧ 0 < f.n ∧ f.queue .request 0 1 ≠ [] ∧
          ∑ src ∈ Finset.range f.n,
            partialDemand f.cfg.ejectionVcFlits (f.queue .request src 1) <
              f.cfg.ejectionVcFlits)) = true := by
    decide
  obtain ⟨f, hreach, hshape, hone, hzero, hq, hsum⟩ := exists_reachable hrun
  exact ⟨f, hshape,
    credit_deadlock_free_of_room hreach ⟨1, hone, ⟨0, hzero, hq⟩, hsum⟩⟩

/-- Two stores of two flits each to one destination with two ejection credits: each
takes one credit, and neither can go on although nothing was delivered. -/
theorem credit_deadlock_counterexample :
    ¬ ∀ (topo : GpuTopology) (gpc : Nat) (cfg : DsmFabricConfig) (f : DsmFabric) (vc : DsmVc),
      Reachable topo gpc cfg FlitOp f → CreditDeadlockFree f vc := by
  intro hclaim
  have hrun : ((runFrom (oneGpc 3 (by decide) (by decide)) 0 { ejectionVcFlits := 2 } FlitOp
      [.inject (mkPkt 0 2 .writeData 64 0), .inject (mkPkt 1 2 .writeData 64 32),
        .cycle 2]).any fun f => decide (¬ CreditDeadlockFree f .request)) = true := by
    decide
  obtain ⟨f, hreach, hdead⟩ := exists_reachable hrun
  exact hdead (hclaim _ _ _ f .request hreach)

end DsmFabric

end FlashGpuSim
