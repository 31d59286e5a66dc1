import FlashGpuSim.Mbarrier.Manager

/-!
The phases of the barriers of an SM. Three operations can bring both counts of a barrier
to zero. Arrivals and completions then advance the phase, an expectation does not.
-/

namespace FlashGpuSim

open Lib

namespace MbarrierManager

/-- A call of one of the operations of the manager. -/
inductive MbarrierOp
  | init (t : ThreadIndex) (addr : Nat) (expectedCount : Int)
  | inval (t : ThreadIndex) (addr : Nat)
  | cancelWaits (warp : Nat)
  | cancelWait (swCtaId : Int) (addr warp : Nat)
  | cleanupCta (hwCtaId : Nat)
  | registerWait (t : ThreadIndex) (addr : Nat)
  | tryWait (t : ThreadIndex) (addr : Nat) (parity : Int)
  | enqueueWait (t : ThreadIndex) (addr : Nat)
  | registerRemoteWait (swCtaId : Int) (addr : Nat) (w : RemoteWaiter)
  | takeSatisfiedRemoteWaiters (swCtaId : Int) (addr : Nat)
  | arrive (t : ThreadIndex) (addr : Nat) (arrivalCount : Int)
  | prepareAsyncArrival (t : ThreadIndex) (addr : Nat) (incrementPending : Bool)
  | completeTx (t : ThreadIndex) (addr : Nat) (completedTxCount : Int)
  | tryCompleteTxIfPending (t : ThreadIndex) (addr : Nat) (completedTxCount : Int)
  | expectTx (t : ThreadIndex) (addr : Nat) (expectedTxCount : Int)
  deriving DecidableEq, Repr

/-- The warps that the call releases, and the manager after it. -/
def call (m : MbarrierManager) : MbarrierOp → Except MbarrierFailure (List Nat × MbarrierManager)
  | .init t addr n => .ok ([], m.init t addr n)
  | .inval t addr => return ([], ← m.inval t addr)
  | .cancelWaits warp => .ok ([], m.cancelWaits warp)
  | .cancelWait swCtaId addr warp => .ok ([], m.cancelWait swCtaId addr warp)
  | .cleanupCta hwCtaId => .ok ([], m.cleanupCta hwCtaId)
  | .registerWait t addr => return ([], ← m.registerWait t addr)
  | .tryWait t addr parity => return (← m.tryWait t addr parity).2
  | .enqueueWait t addr => .ok ([], m.enqueueWait t addr)
  | .registerRemoteWait swCtaId addr w => .ok ([], (m.registerRemoteWait swCtaId addr w).2)
  | .takeSatisfiedRemoteWaiters swCtaId addr =>
    .ok ([], (m.takeSatisfiedRemoteWaiters swCtaId addr).2)
  | .arrive t addr n => .ok (m.arrive t addr n)
  | .prepareAsyncArrival t addr inc => return ([], ← m.prepareAsyncArrival t addr inc)
  | .completeTx t addr n => .ok (m.completeTx t addr n)
  | .tryCompleteTxIfPending t addr n => .ok (m.tryCompleteTxIfPending t addr n)
  | .expectTx t addr n => return ([], ← m.expectTx t addr n)

def step (m : MbarrierManager) (op : MbarrierOp) : Except MbarrierFailure MbarrierManager :=
  Prod.snd <$> m.call op

/-- The barrier whose counts an operation changes. -/
def MbarrierOp.counts : MbarrierOp → Option (Int × Nat)
  | .arrive t addr _ | .prepareAsyncArrival t addr _ | .completeTx t addr _
  | .tryCompleteTxIfPending t addr _ | .expectTx t addr _ => some (t.swCtaId, addr)
  | _ => none

/-- What an operation does to the counts of that barrier. -/
def MbarrierOp.counted (op : MbarrierOp) (b : Mbarrier) : Mbarrier :=
  match op with
  | .arrive _ _ n => b.countArrival n
  | .prepareAsyncArrival _ _ inc =>
    if inc then { b with pendingArrivalCount := b.pendingArrivalCount + 1 } else b
  | .completeTx _ _ n | .tryCompleteTxIfPending _ _ n => b.completeTx n
  | .expectTx _ _ n => b.expectTx n
  | _ => b

/-- `init` expects an arrival. -/
def MbarrierOp.Valid : MbarrierOp → Prop
  | .init _ _ n => 0 < n
  | _ => True

instance (op : MbarrierOp) : Decidable op.Valid := by
  cases op <;> unfold MbarrierOp.Valid <;> infer_instance

/-- No expectation makes the counts of its barrier zero. -/
def ExpectsMore (m : MbarrierManager) : MbarrierOp → Prop
  | .expectTx t addr n =>
    ∀ b ∈ m.getMbarrier t.swCtaId addr, ¬ (b.expectTx n).Complete
  | _ => True

instance (m : MbarrierManager) (op : MbarrierOp) : Decidable (m.ExpectsMore op) := by
  cases op <;> unfold ExpectsMore <;> infer_instance

/-- No phase is complete. -/
def NoneComplete (m : MbarrierManager) : Prop :=
  ∀ key b, m.barriers key = some b → ¬ b.Complete

/-- The operation that makes both counts of a barrier zero advances the phase, resets the
arrival count and releases the registered warps. -/
def CompletesInPlace (m : MbarrierManager) (op : MbarrierOp) : Prop :=
  ∀ m' released key b, m.call op = .ok (released, m') → op.counts = some key →
    m.barriers key = some b →
      m'.barriers key =
          some (if (op.counted b).Complete then (op.counted b).advance else op.counted b) ∧
        released = if (op.counted b).Complete then b.waitingWarps else []

/-- An operation that does not complete the phase of a barrier keeps it, unless it makes
the barrier anew. -/
def KeepsPhase (m : MbarrierManager) (op : MbarrierOp) : Prop :=
  ∀ m' released key b b', m.call op = .ok (released, m') → m.barriers key = some b →
    m'.barriers key = some b' → (∀ t addr n, op = .init t addr n → key ≠ (t.swCtaId, addr)) →
      (op.counts = some key → ¬ (op.counted b).Complete) → b'.phase = b.phase

/-- The counts that the operations keep. -/
structure Counting (b : Mbarrier) : Prop where
  expected : 0 < b.expectedCount
  pending : 0 ≤ b.pendingArrivalCount
  incomplete : ¬ b.Complete

def Sound (m : MbarrierManager) : Prop := ∀ key b, m.barriers key = some b → Counting b

/-- What an operation that counts makes of its barrier, and the warps that it releases. -/
def MbarrierOp.settled (op : MbarrierOp) (b : Mbarrier) : Mbarrier × List Nat :=
  match op with
  | .expectTx _ _ _ | .prepareAsyncArrival _ _ _ => (op.counted b, [])
  | _ => (op.counted b).tryAdvance

section Inversion

variable {m m' : MbarrierManager} {op : MbarrierOp} {released : List Nat}
  {key : Int × Nat} {b b' : Mbarrier} {swCtaId : Int} {addr : Nat}

/-- What an operation leaves of a barrier. -/
inductive Left (m : MbarrierManager) (op : MbarrierOp) (key : Int × Nat) (b' : Mbarrier) : Prop
  | made {t : ThreadIndex} {addr : Nat} {n : Int} (hop : op = .init t addr n) (hkey : key = (t.swCtaId, addr))
      (hexpected : b'.expectedCount = n) (hpending : b'.pendingArrivalCount = n)
  | counted {b : Mbarrier} (hb : m.barriers key = some b) (hcounts : op.counts = some key)
      (hleft : b' = (op.settled b).1)
  | waiters {b : Mbarrier} (hb : m.barriers key = some b) (hcounts : op.counts ≠ some key)
      (waiting : List Nat) (remote : List RemoteWaiter)
      (hleft : b' = { b with waitingWarps := waiting, remoteWaiters := remote })
  | late {b : Mbarrier} (hb : m.barriers key = some b) (hcomplete : b.Complete) (hleft : b' = b.advance)

theorem put_cases (h : (m.put swCtaId addr b).barriers key = some b') :
    (key = (swCtaId, addr) ∧ b' = b) ∨ (key ≠ (swCtaId, addr) ∧ m.barriers key = some b') := by
  unfold put at h
  by_cases hkey : key = (swCtaId, addr)
  · subst hkey
    simp only [Function.update_self, Option.some.injEq] at h
    exact .inl ⟨rfl, h.symm⟩
  · simp only [Function.update_of_ne hkey] at h
    exact .inr ⟨hkey, h⟩

/-- A barrier that an operation does not touch. -/
theorem Left.same (hb : m.barriers key = some b) (hcounts : op.counts ≠ some key) :
    Left m op key b :=
  .waiters hb hcounts b.waitingWarps b.remoteWaiters rfl

/-- An operation that writes one barrier, without a change of the counts. -/
theorem Left.of_put (hget : m.getMbarrier swCtaId addr = some b) (hcounts : op.counts = none)
    (waiting : List Nat) (remote : List RemoteWaiter)
    (h : (m.put swCtaId addr
      { b with waitingWarps := waiting, remoteWaiters := remote }).barriers key = some b') :
    Left m op key b' := by
  have hother : op.counts ≠ some key := by
    rw [hcounts]
    nofun
  obtain ⟨rfl, rfl⟩ | ⟨-, hb⟩ := put_cases h
  · exact .waiters hget hother waiting remote rfl
  · exact .same hb hother

/-- What an operation that counts does to the manager. -/
inductive Counted (m : MbarrierManager) (op : MbarrierOp) (swCtaId : Int) (addr : Nat)
    (released : List Nat) (m' : MbarrierManager) : Prop
  | missing (hget : m.getMbarrier swCtaId addr = none) (hreleased : released = [])
      (hm : m' = m)
  | found {b : Mbarrier} (hget : m.getMbarrier swCtaId addr = some b)
      (hreleased : released = (op.settled b).2)
      (hm : m' = m.put swCtaId addr (op.settled b).1)

theorem put_self (hget : m.getMbarrier swCtaId addr = some b) : m.put swCtaId addr b = m := by
  have hupdate : Function.update m.barriers (swCtaId, addr) (some b) = m.barriers := by
    rw [← hget]
    exact Function.update_eq_self _ _
  unfold put
  rw [hupdate]

theorem completeTx_counted {t : ThreadIndex} {n : Int}
    (h : m.completeTx t addr n = (released, m'))
    (hsettled : ∀ b : Mbarrier, op.settled b = (b.completeTx n).tryAdvance) :
    Counted m op t.swCtaId addr released m' := by
  unfold completeTx at h
  split at h
  · rename_i b hget
    obtain ⟨hreleased, hm⟩ := Prod.mk.inj h
    rw [← hsettled b] at hreleased hm
    exact .found hget hreleased.symm hm.symm
  · rename_i hget
    obtain ⟨hreleased, hm⟩ := Prod.mk.inj h
    exact .missing hget hreleased.symm hm.symm

theorem call_counted (h : m.call op = .ok (released, m'))
    (hcounts : op.counts = some (swCtaId, addr)) : Counted m op swCtaId addr released m' := by
  cases op with
  | arrive t addr n =>
    cases hcounts
    have harrive : m.arrive t addr n = (released, m') := Except.ok.inj h
    unfold arrive at harrive
    split at harrive
    · rename_i b hget
      obtain ⟨hreleased, hm⟩ := Prod.mk.inj harrive
      exact .found hget hreleased.symm hm.symm
    · rename_i hget
      obtain ⟨hreleased, hm⟩ := Prod.mk.inj harrive
      exact .missing hget hreleased.symm hm.symm
  | prepareAsyncArrival t addr inc =>
    cases hcounts
    obtain ⟨m₁, hprepare, heq⟩ := bind_eq_ok h
    cases heq
    unfold prepareAsyncArrival at hprepare
    split at hprepare
    · rename_i b hget
      split at hprepare
      · rename_i hinc
        split at hprepare
        · cases hprepare
          have hsettled : (MbarrierOp.prepareAsyncArrival t addr inc).counted b =
              { b with pendingArrivalCount := b.pendingArrivalCount + 1 } := if_pos hinc
          rw [← hsettled]
          exact .found hget rfl rfl
        · cases hprepare
      · rename_i hinc
        cases hprepare
        have hsettled : (MbarrierOp.prepareAsyncArrival t addr inc).counted b = b :=
          if_neg hinc
        refine .found hget rfl ?_
        simp only [MbarrierOp.settled, hsettled]
        exact (put_self hget).symm
    · cases hprepare
  | completeTx t addr n =>
    cases hcounts
    exact completeTx_counted (Except.ok.inj h) (fun _ => rfl)
  | tryCompleteTxIfPending t addr n =>
    cases hcounts
    have htry : m.tryCompleteTxIfPending t addr n = (released, m') := Except.ok.inj h
    unfold tryCompleteTxIfPending at htry
    split at htry
    · exact completeTx_counted htry (fun _ => rfl)
    · rename_i hget
      obtain ⟨hreleased, hm⟩ := Prod.mk.inj htry
      exact .missing hget hreleased.symm hm.symm
  | expectTx t addr n =>
    cases hcounts
    obtain ⟨m₁, hexpect, heq⟩ := bind_eq_ok h
    cases heq
    unfold expectTx at hexpect
    split at hexpect
    · rename_i b hget
      cases hexpect
      exact .found hget rfl rfl
    · cases hexpect
  | _ => cases hcounts

theorem Counted.left (h : Counted m op swCtaId addr released m')
    (hcounts : op.counts = some (swCtaId, addr)) (hb' : m'.barriers key = some b') :
    Left m op key b' := by
  have hother (hkey : key ≠ (swCtaId, addr)) : op.counts ≠ some key := by
    rw [hcounts]
    intro heq
    exact hkey (Option.some.inj heq).symm
  cases h with
  | missing hget hreleased hm =>
    subst hm
    apply Left.same hb' (hother _)
    rintro rfl
    have hsome := hb'.symm.trans hget
    cases hsome
  | found hget hreleased hm =>
    subst hm
    obtain ⟨rfl, rfl⟩ | ⟨hkey, hb⟩ := put_cases hb'
    · exact .counted hget hcounts rfl
    · exact .same hb (hother hkey)

/-- Every barrier after an operation. -/
theorem call_left (h : m.call op = .ok (released, m')) (hb' : m'.barriers key = some b') :
    Left m op key b' := by
  cases op with
  | init t addr n =>
    cases h
    unfold init at hb'
    split at hb' <;> obtain ⟨hkey, rfl⟩ | ⟨-, hb⟩ := put_cases hb'
    · exact .made rfl hkey rfl rfl
    · exact .same hb nofun
    · exact .made rfl hkey rfl rfl
    · exact .same hb nofun
  | inval t addr =>
    obtain ⟨m₁, hinval, heq⟩ := bind_eq_ok h
    cases heq
    unfold inval at hinval
    split at hinval
    · cases hinval
      by_cases hkey : key = (t.swCtaId, addr)
      · subst hkey
        simp only [Function.update_self, reduceCtorEq] at hb'
      · simp only [Function.update_of_ne hkey] at hb'
        exact .same hb' nofun
    · cases hinval
  | cancelWaits warp =>
    cases h
    obtain ⟨b, hb, rfl⟩ := Option.map_eq_some_iff.mp hb'
    exact .waiters hb nofun _ b.remoteWaiters rfl
  | cancelWait swCtaId addr warp =>
    cases h
    unfold cancelWait at hb'
    split at hb'
    · rename_i b hget
      exact .of_put hget rfl _ b.remoteWaiters hb'
    · exact .same hb' nofun
  | cleanupCta hwCtaId =>
    cases h
    obtain ⟨hb, -⟩ := Option.filter_eq_some_iff.mp hb'
    exact .same hb nofun
  | registerWait t addr =>
    obtain ⟨m₁, hregister, heq⟩ := bind_eq_ok h
    cases heq
    unfold registerWait at hregister
    split at hregister
    · rename_i b hget
      cases hregister
      exact .of_put hget rfl _ b.remoteWaiters hb'
    · cases hregister
  | tryWait t addr parity =>
    obtain ⟨⟨ok, released, m₁⟩, htry, heq⟩ := bind_eq_ok h
    cases heq
    obtain ⟨past, -, htry⟩ := bind_eq_ok htry
    split at htry
    · cases htry
      exact .same hb' nofun
    · split at htry
      · rename_i b hget
        split at htry
        · rename_i hnow
          cases htry
          rw [Mbarrier.tryAdvance_of_complete hnow.1] at hb'
          obtain ⟨rfl, rfl⟩ | ⟨-, hb⟩ := put_cases hb'
          · exact .late hget hnow.1 rfl
          · exact .same hb nofun
        · cases htry
          exact .same hb' nofun
      · cases htry
        exact .same hb' nofun
  | enqueueWait t addr =>
    cases h
    unfold enqueueWait at hb'
    split at hb'
    · rename_i b hget
      exact .of_put hget rfl _ b.remoteWaiters hb'
    · exact .same hb' nofun
  | registerRemoteWait swCtaId addr w =>
    cases h
    unfold registerRemoteWait at hb'
    split at hb'
    · rename_i b hget
      split at hb'
      · exact .same hb' nofun
      · exact .of_put hget rfl b.waitingWarps _ hb'
    · exact .same hb' nofun
  | takeSatisfiedRemoteWaiters swCtaId addr =>
    cases h
    unfold takeSatisfiedRemoteWaiters at hb'
    split at hb'
    · rename_i b hget
      exact .of_put hget rfl b.waitingWarps _ hb'
    · exact .same hb' nofun
  | arrive t addr n => exact (call_counted h rfl).left rfl hb'
  | prepareAsyncArrival t addr inc => exact (call_counted h rfl).left rfl hb'
  | completeTx t addr n => exact (call_counted h rfl).left rfl hb'
  | tryCompleteTxIfPending t addr n => exact (call_counted h rfl).left rfl hb'
  | expectTx t addr n => exact (call_counted h rfl).left rfl hb'

end Inversion

section Invariant

variable {m m' : MbarrierManager} {op : MbarrierOp} {released : List Nat} {b : Mbarrier}

theorem Counting.tryAdvance (hexpected : 0 < b.expectedCount)
    (hpending : 0 ≤ b.pendingArrivalCount) : Counting b.tryAdvance.1 := by
  by_cases hcomplete : b.Complete
  · rw [Mbarrier.tryAdvance_of_complete hcomplete]
    exact ⟨hexpected, hexpected.le, fun h => hexpected.ne' h.1⟩
  · rw [Mbarrier.tryAdvance_of_not hcomplete]
    exact ⟨hexpected, hpending, hcomplete⟩

theorem counted_expected (op : MbarrierOp) (b : Mbarrier) :
    (op.counted b).expectedCount = b.expectedCount := by
  cases op with
  | prepareAsyncArrival t addr inc => cases inc <;> rfl
  | _ => rfl

theorem counted_waiting (op : MbarrierOp) (b : Mbarrier) :
    (op.counted b).waitingWarps = b.waitingWarps := by
  cases op with
  | prepareAsyncArrival t addr inc => cases inc <;> rfl
  | _ => rfl

theorem counted_phase (op : MbarrierOp) (b : Mbarrier) :
    (op.counted b).phase = b.phase := by
  cases op with
  | prepareAsyncArrival t addr inc => cases inc <;> rfl
  | _ => rfl

theorem counted_pending (op : MbarrierOp) (h : 0 ≤ b.pendingArrivalCount) :
    0 ≤ (op.counted b).pendingArrivalCount := by
  cases op with
  | arrive t addr n =>
    simp only [MbarrierOp.counted, Mbarrier.countArrival]
    split <;> omega
  | prepareAsyncArrival t addr inc =>
    cases inc with
    | true => exact Int.le_add_one h
    | false => exact h
  | _ => exact h

/-- A preparation or an expectation that does not complete the phase need not look. -/
theorem Counting.settled (h : Counting b)
    (hexpects : ∀ t addr n, op = .expectTx t addr n → ¬ (b.expectTx n).Complete) :
    op.settled b = (op.counted b).tryAdvance := by
  cases op with
  | expectTx t addr n => exact (Mbarrier.tryAdvance_of_not (hexpects t addr n rfl)).symm
  | prepareAsyncArrival t addr inc =>
    cases inc with
    | true =>
      apply (Mbarrier.tryAdvance_of_not _).symm
      rintro ⟨hzero, -⟩
      have hpending := h.pending
      simp only [MbarrierOp.counted, if_true] at hzero
      omega
    | false => exact (Mbarrier.tryAdvance_of_not h.incomplete).symm
  | _ => rfl

theorem ExpectsMore.at {key : Int × Nat} (h : m.ExpectsMore op) (hcounts : op.counts = some key)
    (hb : m.barriers key = some b) :
    ∀ t addr n, op = .expectTx t addr n → ¬ (b.expectTx n).Complete := by
  rintro t addr n rfl
  cases hcounts
  exact h b hb

theorem Sound.settled {key : Int × Nat} (h : m.Sound) (hexpects : m.ExpectsMore op)
    (hcounts : op.counts = some key) (hb : m.barriers key = some b) :
    op.settled b = (op.counted b).tryAdvance :=
  (h key b hb).settled (hexpects.at hcounts hb)

theorem Sound.noneComplete (h : m.Sound) : m.NoneComplete :=
  fun key b hb => (h key b hb).incomplete

/-- Operations that do not complete a phase by an expectation keep the counts sound. -/
theorem Sound.call (h : m.Sound) (hvalid : op.Valid) (hexpects : m.ExpectsMore op)
    (hcall : m.call op = .ok (released, m')) : m'.Sound := by
  intro key b' hb'
  cases call_left hcall hb' with
  | made hop hkey hexpected hpending =>
    subst hop
    have hpos : 0 < b'.expectedCount := hexpected ▸ hvalid
    have hsame : b'.pendingArrivalCount = b'.expectedCount := hpending.trans hexpected.symm
    refine ⟨hpos, hsame ▸ hpos.le, fun hcomplete => ?_⟩
    exact hpos.ne' (hsame ▸ hcomplete.1)
  | counted hb hcounts hleft =>
    subst hleft
    have hcounting := h _ _ hb
    rw [h.settled hexpects hcounts hb]
    apply Counting.tryAdvance
    · rw [counted_expected]
      exact hcounting.expected
    · exact counted_pending op hcounting.pending
  | waiters hb hcounts waiting remote hleft =>
    subst hleft
    have hcounting := h _ _ hb
    exact ⟨hcounting.expected, hcounting.pending, hcounting.incomplete⟩
  | late hb hcomplete hleft => exact absurd hcomplete (h _ _ hb).incomplete

/-- An expectation that makes the counts zero leaves a complete phase behind. -/
theorem Sound.noneComplete_iff (h : m.Sound) (hvalid : op.Valid)
    (hcall : m.call op = .ok (released, m')) : m'.NoneComplete ↔ m.ExpectsMore op := by
  constructor
  · intro hnone
    cases op with
    | expectTx t addr n =>
      intro b hget hcomplete
      cases call_counted hcall rfl with
      | missing hmissing hreleased hm => cases hmissing.symm.trans hget
      | found hfound hreleased hm =>
        cases hfound.symm.trans hget
        subst hm
        exact hnone (t.swCtaId, addr) _ (m.put_at _ _ _) hcomplete
    | _ => trivial
  · exact fun hexpects => (h.call hvalid hexpects hcall).noneComplete

theorem Sound.completesInPlace (h : m.Sound) (hexpects : m.ExpectsMore op) :
    m.CompletesInPlace op := by
  rintro m' released ⟨swCtaId, addr⟩ b hcall hcounts hb
  cases call_counted hcall hcounts with
  | missing hget hreleased hm => cases hget.symm.trans hb
  | found hget hreleased hm =>
    cases hget.symm.trans hb
    subst hm hreleased
    rw [h.settled hexpects hcounts hb, put_at]
    by_cases hcomplete : (op.counted b).Complete
    · rw [Mbarrier.tryAdvance_of_complete hcomplete, if_pos hcomplete, if_pos hcomplete]
      exact ⟨rfl, counted_waiting op b⟩
    · rw [Mbarrier.tryAdvance_of_not hcomplete, if_neg hcomplete, if_neg hcomplete]
      exact ⟨rfl, rfl⟩

theorem Sound.keepsPhase (h : m.Sound) (hexpects : m.ExpectsMore op) : m.KeepsPhase op := by
  intro m' released key b b' hcall hb hb' hnew hincomplete
  cases call_left hcall hb' with
  | made hop hkey hexpected hpending => exact absurd hkey (hnew _ _ _ hop)
  | counted hfound hcounts hleft =>
    cases hfound.symm.trans hb
    rw [hleft, h.settled hexpects hcounts hb,
      Mbarrier.tryAdvance_of_not (hincomplete hcounts)]
    exact counted_phase op b
  | waiters hfound hcounts waiting remote hleft =>
    cases hfound.symm.trans hb
    rw [hleft]
  | late hfound hcomplete hleft => exact absurd hcomplete (h _ _ hfound).incomplete

end Invariant

/-- In a run in which no expectation brings the counts of a barrier to zero, no phase is
left complete: the operation that makes both counts zero starts the next phase and
releases the registered warps. The next operation keeps it so exactly if it is no such
expectation. -/
theorem phases_complete_in_place {m : MbarrierManager}
    (h : Reaches step (fun m op => op.Valid ∧ m.ExpectsMore op) {} m) :
    m.NoneComplete ∧ ∀ op, op.Valid →
      (m.ExpectsMore op → m.CompletesInPlace op ∧ m.KeepsPhase op) ∧
      ∀ released m', m.call op = .ok (released, m') → (m'.NoneComplete ↔ m.ExpectsMore op) := by
  have hsound : m.Sound := by
    apply h.invariant Sound nofun
    rintro m m' op hsound ⟨hvalid, hexpects⟩ hstep
    cases hcall : m.call op with
    | error e =>
      rw [step, hcall] at hstep
      cases hstep
    | ok result =>
      rw [step, hcall] at hstep
      cases hstep
      exact hsound.call hvalid hexpects hcall
  refine ⟨hsound.noneComplete, fun op hvalid => ⟨fun hexpects => ?_, fun _ _ hcall => ?_⟩⟩
  · exact ⟨hsound.completesInPlace hexpects, hsound.keepsPhase hexpects⟩
  · exact hsound.noneComplete_iff hvalid hcall

/-- A completion that comes before the expectation of its bytes, and then the arrival. -/
theorem phases_complete_in_place_witness :
    ∃ m : MbarrierManager, (∃ b ∈ m.getMbarrier 0 64, b.phase = 1) ∧ m.NoneComplete := by
  have hrun : ((runAllowed step (fun m op => op.Valid ∧ m.ExpectsMore op) {}
      [.init ⟨0, 0, 0⟩ 64 1, .completeTx ⟨0, 0, 0⟩ 64 4, .expectTx ⟨0, 0, 0⟩ 64 4,
        .arrive ⟨0, 0, 0⟩ 64 1]).any
      fun m => decide (∃ b ∈ m.getMbarrier 0 64, b.phase = 1)) = true := by
    decide
  obtain ⟨m, hm, hphase⟩ := (Option.any_eq_true _ _).mp hrun
  exact ⟨m, of_decide_eq_true hphase,
    (phases_complete_in_place (Reaches.of_runAllowed .refl hm)).1⟩

/-- The last arrival comes while the completed bytes are not yet expected. -/
theorem phases_complete_in_place_counterexample :
    ¬ ∀ m : MbarrierManager, Reaches step (fun _ op => op.Valid) {} m → m.NoneComplete := by
  intro hclaim
  have hrun : ((runAllowed step (fun _ op => op.Valid) {}
      [.init ⟨0, 0, 0⟩ 64 1, .completeTx ⟨0, 0, 0⟩ 64 4, .arrive ⟨0, 0, 0⟩ 64 1,
        .expectTx ⟨0, 0, 0⟩ 64 4]).any
      fun m => decide (∃ b ∈ m.getMbarrier 0 64, b.Complete)) = true := by
    decide
  obtain ⟨m, hm, hstuck⟩ := (Option.any_eq_true _ _).mp hrun
  obtain ⟨b, hget, hcomplete⟩ := of_decide_eq_true hstuck
  exact hclaim m (Reaches.of_runAllowed .refl hm) (0, 64) b hget hcomplete

end MbarrierManager

end FlashGpuSim
