import Mathlib.Algebra.BigOperators.Group.List.Basic
import Mathlib.Logic.Function.Iterate
import FlashGpuSim.Lib.Reach

/-!
`simple_dram_service_budget`: credit in numerator units with a cap. The cap is meant for idle
ticks. A rate above one atom per tick can reach it while a request larger than one atom waits,
and then credit is lost; below that rate, or with one-atom requests, it never is.
-/

namespace FlashGpuSim

open Lib

/-- The arguments of the constructor. The rate is of two `unsigned` options, and the callers
compute the largest request in `unsigned` too. -/
structure SimpleDramRate where
  numerator : Nat
  denominator : Nat
  maxRequestAtoms : Nat
  numerator_pos : 0 < numerator
  denominator_pos : 0 < denominator
  maxRequestAtoms_pos : 0 < maxRequestAtoms
  numerator_lt : numerator < 2 ^ 32
  denominator_lt : denominator < 2 ^ 32
  maxRequestAtoms_lt : maxRequestAtoms < 2 ^ 32

inductive SimpleDramFault
  /-- `assert(atoms > 0)` -/
  | noAtoms
  /-- `assert(can_service(atoms))` -/
  | canService
  deriving DecidableEq, Repr

namespace SimpleDramRate

variable (r : SimpleDramRate)

def maxServiceAtoms : Nat := (r.numerator + r.denominator - 1) / r.denominator

/-- `m_whole_credit_cap` -/
def wholeCreditCap : Nat := max r.maxServiceAtoms r.maxRequestAtoms * r.denominator

/-- `m_credit_cap` -/
def creditCap : Nat := r.wholeCreditCap + r.denominator - 1

/-- `begin_tick` -/
def beginTick (credit : Nat) : Nat :=
  let credit := credit + r.numerator
  if credit > r.creditCap then r.wholeCreditCap + credit % r.denominator else credit

/-- `can_service` -/
def canService (credit atoms : Nat) : Bool := decide (atoms * r.denominator ≤ credit)

/-- The subtraction of `consume`. -/
def spend (credit atoms : Nat) : Nat := credit - atoms * r.denominator

/-- `consume` -/
def consume (credit atoms : Nat) : Except SimpleDramFault Nat := do
  require (decide (0 < atoms)) .noAtoms
  require (r.canService credit atoms) .canService
  return r.spend credit atoms

/-- `discard_idle_credit` -/
def discardIdleCredit (credit : Nat) : Nat := credit % r.denominator

/-! ### Bounds of the stored numbers -/

theorem maxServiceAtoms_mul : r.numerator ≤ r.maxServiceAtoms * r.denominator ∧
    r.maxServiceAtoms * r.denominator < r.numerator + r.denominator := by
  have hmod := Nat.div_add_mod (r.numerator + r.denominator - 1) r.denominator
  have hlt := Nat.mod_lt (r.numerator + r.denominator - 1) r.denominator_pos
  have hpos := r.denominator_pos
  rw [Nat.mul_comm] at hmod
  unfold maxServiceAtoms
  omega

theorem maxServiceAtoms_le : r.maxServiceAtoms ≤ r.numerator := by
  unfold maxServiceAtoms
  apply Nat.div_le_of_le_mul
  have hpos := r.denominator_pos
  have hmul : r.numerator - 1 ≤ r.denominator * (r.numerator - 1) :=
    Nat.le_mul_of_pos_left _ hpos
  have hsplit : r.denominator * r.numerator = r.denominator * (r.numerator - 1) + r.denominator := by
    rw [← Nat.mul_succ, Nat.succ_eq_add_one, Nat.sub_add_cancel r.numerator_pos]
  omega

/-- No 64-bit field of the class wraps: not even before `begin_tick` cuts the credit. -/
theorem creditCap_lt : r.creditCap + r.numerator < 2 ^ 64 := by
  have hatoms : max r.maxServiceAtoms r.maxRequestAtoms ≤ 2 ^ 32 - 1 := by
    have := r.maxServiceAtoms_le
    have := r.numerator_lt
    have := r.maxRequestAtoms_lt
    omega
  have hden : r.denominator ≤ 2 ^ 32 - 1 := by
    have := r.denominator_lt
    omega
  have hmul := Nat.mul_le_mul hatoms hden
  have hnum := r.numerator_lt
  unfold creditCap wholeCreditCap
  omega

theorem maxRequest_le_cap : r.maxRequestAtoms * r.denominator ≤ r.wholeCreditCap :=
  Nat.mul_le_mul_right _ (le_max_right _ _)

variable {r} {credit : Nat}

theorem beginTick_eq (h : credit + r.numerator ≤ r.creditCap) :
    r.beginTick credit = credit + r.numerator :=
  if_neg (Nat.not_lt.mpr h)

theorem beginTick_of_lt (h : r.creditCap < credit + r.numerator) :
    r.beginTick credit = r.wholeCreditCap + (credit + r.numerator) % r.denominator :=
  if_pos h

/-- A tick keeps the cap and adds no more than the numerator. -/
theorem beginTick_le (credit : Nat) :
    r.beginTick credit ≤ r.creditCap ∧ r.beginTick credit ≤ credit + r.numerator := by
  have hmod := Nat.mod_lt (credit + r.numerator) r.denominator_pos
  rcases Nat.lt_or_ge r.creditCap (credit + r.numerator) with hlt | hle
  · rw [beginTick_of_lt hlt]
    unfold creditCap at hlt ⊢
    omega
  · rw [beginTick_eq hle]
    exact ⟨hle, le_refl _⟩

theorem spend_add {atoms : Nat} (h : r.canService credit atoms = true) :
    r.spend credit atoms + atoms * r.denominator = credit :=
  Nat.sub_add_cancel (of_decide_eq_true h)

end SimpleDramRate

/-! ### Any calls: the cap and the most that a window of ticks serves -/

/-- A call of the budget. -/
inductive SimpleDramCall
  | beginTick
  | consume (atoms : Nat)
  | discardIdleCredit
  deriving DecidableEq, Repr

namespace SimpleDramCall

def atoms : SimpleDramCall → Nat
  | consume atoms => atoms
  | beginTick | discardIdleCredit => 0

def ticks : SimpleDramCall → Nat
  | beginTick => 1
  | consume _ | discardIdleCredit => 0

end SimpleDramCall

namespace SimpleDramRate

def call (r : SimpleDramRate) (credit : Nat) : SimpleDramCall → Except SimpleDramFault Nat
  | .beginTick => .ok (r.beginTick credit)
  | .consume atoms => r.consume credit atoms
  | .discardIdleCredit => .ok (r.discardIdleCredit credit)

/-- The atoms that some calls serve. -/
def atomsOf (calls : List SimpleDramCall) : Nat := (calls.map SimpleDramCall.atoms).sum

/-- The ticks that some calls begin. -/
def ticksOf (calls : List SimpleDramCall) : Nat := (calls.map SimpleDramCall.ticks).sum

variable {r : SimpleDramRate} {credit credit' : Nat}

theorem consume_ok {atoms : Nat} (h : r.consume credit atoms = .ok credit') :
    0 < atoms ∧ credit' + atoms * r.denominator = credit := by
  obtain ⟨_, hpos, h⟩ := bind_eq_ok h
  obtain ⟨_, hcan, h⟩ := bind_eq_ok h
  cases h
  exact ⟨of_decide_eq_true (require_true hpos), spend_add (require_true hcan)⟩

/-- A call pays for what it serves with the credit and the numerator of its tick. -/
theorem call_pays {c : SimpleDramCall} (h : r.call credit c = .ok credit') :
    credit' + c.atoms * r.denominator ≤ credit + c.ticks * r.numerator := by
  cases c with
  | beginTick =>
    cases h
    simpa [SimpleDramCall.atoms, SimpleDramCall.ticks] using (beginTick_le credit).2
  | consume atoms =>
    have := (consume_ok h).2
    simp only [SimpleDramCall.atoms, SimpleDramCall.ticks]
    omega
  | discardIdleCredit =>
    cases h
    simpa [SimpleDramCall.atoms, SimpleDramCall.ticks, discardIdleCredit] using Nat.mod_le _ _

theorem call_le_cap {c : SimpleDramCall} (hcap : credit ≤ r.creditCap)
    (h : r.call credit c = .ok credit') : credit' ≤ r.creditCap := by
  cases c with
  | beginTick =>
    cases h
    exact (beginTick_le credit).1
  | consume atoms =>
    have := (consume_ok h).2
    omega
  | discardIdleCredit =>
    cases h
    exact (Nat.mod_le _ _).trans hcap

theorem calls_pay {calls : List SimpleDramCall} (h : calls.foldlM r.call credit = .ok credit') :
    credit' + atomsOf calls * r.denominator ≤ credit + ticksOf calls * r.numerator := by
  induction calls generalizing credit with
  | nil =>
    cases h
    simp [atomsOf, ticksOf]
  | cons c rest ih =>
    obtain ⟨middle, hcall, hrest⟩ := bind_eq_ok h
    have hpays := call_pays hcall
    have hlater := ih hrest
    simp only [atomsOf, ticksOf, List.map_cons, List.sum_cons, Nat.add_mul] at hlater ⊢
    omega

/-- The credit stays within its cap and is paid exactly by what is consumed; no window of calls
serves more than its ticks and a full cap pay for. -/
def StaysCapped (r : SimpleDramRate) : Prop :=
  ∀ credit, Reaches r.call (fun _ _ => True) 0 credit →
    credit ≤ r.creditCap ∧
    (∀ atoms, 0 < atoms → r.canService credit atoms = true →
      ∃ credit', r.consume credit atoms = .ok credit' ∧
        credit' + atoms * r.denominator = credit) ∧
    ∀ calls credit', calls.foldlM r.call credit = .ok credit' →
      atomsOf calls ≤ (ticksOf calls * r.numerator + r.creditCap) / r.denominator

theorem staysCapped (r : SimpleDramRate) : r.StaysCapped := by
  intro credit hreach
  have hcap : credit ≤ r.creditCap := by
    apply hreach.invariant (· ≤ r.creditCap) (Nat.zero_le _)
    intro s t c hle _ hok
    exact call_le_cap hle hok
  refine ⟨hcap, ?_, ?_⟩
  · intro atoms hpos hcan
    refine ⟨r.spend credit atoms, ?_, spend_add hcan⟩
    unfold consume
    rw [require_pass (decide_eq_true hpos), hcan]
    rfl
  · intro calls credit' hcalls
    have hpay := calls_pay hcalls
    rw [Nat.le_div_iff_mul_le r.denominator_pos]
    omega

end SimpleDramRate

/-! ### Greedy service in order -/

/-- The credit, the requests that wait and the atoms that were served. -/
structure SimpleDramService where
  credit : Nat
  pending : List Nat
  served : Nat
  deriving DecidableEq, Repr

namespace SimpleDramRate

variable (r : SimpleDramRate)

/-- The loop of a tick: the head is consumed while `can_service` holds of it. -/
def serve (credit served : Nat) : List Nat → SimpleDramService
  | [] => ⟨credit, [], served⟩
  | atoms :: rest =>
    if r.canService credit atoms then serve (r.spend credit atoms) (served + atoms) rest
    else ⟨credit, atoms :: rest, served⟩

def tick (s : SimpleDramService) : SimpleDramService :=
  r.serve (r.beginTick s.credit) s.served s.pending

/-- So many ticks, from the constructed budget. -/
def serviceAfter (requests : List Nat) (ticks : Nat) : SimpleDramService :=
  r.tick^[ticks] ⟨0, requests, 0⟩

/-- While a request waits at the end of every tick, the service is at most one atom less than a
largest request behind the rate. -/
def ServesRate : Prop :=
  ∀ requests : List Nat, (∀ atoms ∈ requests, 1 ≤ atoms ∧ atoms ≤ r.maxRequestAtoms) →
    ∀ ticks, (r.serviceAfter requests ticks).pending ≠ [] →
      ticks * r.numerator / r.denominator ≤
        (r.serviceAfter requests ticks).served + (r.maxRequestAtoms - 1)

variable {r}

theorem serviceAfter_succ (requests : List Nat) (ticks : Nat) :
    r.serviceAfter requests (ticks + 1) = r.tick (r.serviceAfter requests ticks) :=
  Function.iterate_succ_apply' _ _ _

/-- What the loop of a tick leaves. -/
theorem serve_spec (credit served : Nat) (pending : List Nat) :
    (r.serve credit served pending).credit +
        (r.serve credit served pending).served * r.denominator =
      credit + served * r.denominator ∧
    (r.serve credit served pending).pending <:+ pending ∧
    ∀ atoms rest, (r.serve credit served pending).pending = atoms :: rest →
      (r.serve credit served pending).credit < atoms * r.denominator := by
  induction pending generalizing credit served with
  | nil => simp [serve]
  | cons atoms rest ih =>
    unfold serve
    split
    · rename_i hcan
      obtain ⟨hpaid, hsuffix, hhead⟩ := ih (r.spend credit atoms) (served + atoms)
      have hspend := spend_add hcan
      refine ⟨?_, hsuffix.trans (List.suffix_cons _ _), hhead⟩
      rw [hpaid, Nat.add_mul]
      omega
    · rename_i hcan
      refine ⟨rfl, List.suffix_rfl, ?_⟩
      intro atoms' rest' heq
      cases heq
      simpa [canService] using hcan

/-- The credit is what the rate gave and the service did not take. -/
theorem ServesRate.of_small (hsmall : r.maxRequestAtoms = 1 ∨ r.numerator ≤ r.denominator) :
    r.ServesRate := by
  intro requests hsizes ticks hpending
  have hinv : ∀ ticks, (r.serviceAfter requests ticks).pending ≠ [] →
      (r.serviceAfter requests ticks).credit +
          (r.serviceAfter requests ticks).served * r.denominator = ticks * r.numerator ∧
        (r.serviceAfter requests ticks).credit < r.maxRequestAtoms * r.denominator ∧
          (r.serviceAfter requests ticks).pending <:+ requests := by
    intro ticks
    induction ticks with
    | zero =>
      intro _
      refine ⟨by simp [serviceAfter], Nat.mul_pos r.maxRequestAtoms_pos r.denominator_pos,
        List.suffix_rfl⟩
    | succ ticks ih =>
      rw [serviceAfter_succ]
      generalize r.serviceAfter requests ticks = s at ih
      intro hne
      obtain ⟨hpaid, hsuffix, hhead⟩ := r.serve_spec (r.beginTick s.credit) s.served s.pending
      have hwas : s.pending ≠ [] := by
        intro hnil
        rw [hnil, List.suffix_nil] at hsuffix
        exact hne (by rw [tick, hnil, hsuffix])
      obtain ⟨hexact, hbound, hpart⟩ := ih hwas
      -- the cap is out of reach: the credit is below a largest request
      have hbegin : r.beginTick s.credit = s.credit + r.numerator := by
        apply beginTick_eq
        have hserv := r.maxServiceAtoms_mul
        have hpos := r.denominator_pos
        have hcapS : r.maxServiceAtoms * r.denominator ≤ r.wholeCreditCap :=
          Nat.mul_le_mul_right _ (le_max_left _ _)
        have hcapA := r.maxRequest_le_cap
        unfold creditCap
        rcases hsmall with hone | hslow
        · rw [hone, Nat.one_mul] at hbound
          omega
        · omega
      unfold tick
      refine ⟨?_, ?_, hsuffix.trans hpart⟩
      · rw [hpaid, hbegin, Nat.add_mul, Nat.one_mul]
        omega
      · obtain ⟨atoms, rest, heq⟩ := List.exists_cons_of_ne_nil hne
        have hmem : atoms ∈ requests := by
          apply (hsuffix.trans hpart).subset
          unfold tick at heq
          rw [heq]
          exact List.mem_cons_self
        exact (hhead atoms rest heq).trans_le (Nat.mul_le_mul_right _ (hsizes atoms hmem).2)
  obtain ⟨hexact, hbound, -⟩ := hinv ticks hpending
  have hdiv : ticks * r.numerator / r.denominator <
      (r.serviceAfter requests ticks).served + r.maxRequestAtoms := by
    rw [Nat.div_lt_iff_lt_mul r.denominator_pos, Nat.add_mul]
    omega
  omega

/-! ### Requests that lose credit -/

/-- Whatever request of at least `least` atoms comes next, the ticks serve these requests. -/
def Serves (r : SimpleDramRate) (credit ticks : Nat) (requests : List Nat) (credit' least : Nat) :
    Prop :=
  ∀ atoms rest served, least ≤ atoms →
    r.tick^[ticks] ⟨credit, requests ++ atoms :: rest, served⟩ =
      ⟨credit', atoms :: rest, served + requests.sum⟩

theorem Serves.trans {ticks₁ ticks₂ credit₁ credit₂ least₁ least₂ : Nat} {l₁ l₂ : List Nat}
    (h₁ : r.Serves credit ticks₁ l₁ credit₁ least₁) (h₂ : r.Serves credit₁ ticks₂ l₂ credit₂ least₂)
    (hnext : ∀ atoms, least₂ ≤ atoms → ∀ x, (l₂ ++ [atoms]).head? = some x → least₁ ≤ x) :
    r.Serves credit (ticks₁ + ticks₂) (l₁ ++ l₂) credit₂ least₂ := by
  intro atoms rest served hatoms
  have hnext := hnext atoms hatoms
  rw [Nat.add_comm, Function.iterate_add_apply]
  have hfirst : r.tick^[ticks₁] ⟨credit, l₁ ++ l₂ ++ atoms :: rest, served⟩ =
      ⟨credit₁, l₂ ++ atoms :: rest, served + l₁.sum⟩ := by
    cases l₂ with
    | nil =>
      rw [List.append_nil]
      exact h₁ atoms rest served (hnext atoms rfl)
    | cons x l₂ =>
      rw [List.append_assoc]
      exact h₁ x (l₂ ++ atoms :: rest) served (hnext x rfl)
  rw [hfirst, h₂ atoms rest _ hatoms, List.sum_append, Nat.add_assoc]

theorem serve_blocked {atoms : Nat} (h : credit < atoms * r.denominator) (served : Nat)
    (rest : List Nat) : r.serve credit served (atoms :: rest) = ⟨credit, atoms :: rest, served⟩ := by
  unfold serve
  rw [if_neg (by simpa [canService] using h)]

theorem serve_ones {count : Nat} (h : count * r.denominator ≤ credit) (served : Nat)
    (rest : List Nat) :
    r.serve credit served (List.replicate count 1 ++ rest) =
      r.serve (credit - count * r.denominator) (served + count) rest := by
  induction count generalizing credit served with
  | zero => simp
  | succ count ih =>
    rw [Nat.add_mul, Nat.one_mul] at h
    rw [List.replicate_succ, List.cons_append, serve,
      if_pos (by simpa [canService] using (by omega : r.denominator ≤ credit)), spend, Nat.one_mul,
      ih (by omega), Nat.add_mul, Nat.one_mul]
    congr 1 <;> omega

/-- Below a full atom of credit every tick adds the whole numerator. -/
theorem beginTick_phase (h : credit < r.denominator) :
    r.beginTick credit = credit + r.numerator := by
  apply beginTick_eq
  have hserv := r.maxServiceAtoms_mul
  have hcap : r.maxServiceAtoms * r.denominator ≤ r.wholeCreditCap :=
    Nat.mul_le_mul_right _ (le_max_left _ _)
  unfold creditCap
  omega

/-- A tick that serves one-atom requests down to some credit. -/
theorem serves_ones {count left least : Nat} (h : credit < r.denominator)
    (hleft : count * r.denominator + left = credit + r.numerator)
    (hleast : left < least * r.denominator) :
    r.Serves credit 1 (List.replicate count 1) left least := by
  intro atoms rest served hatoms
  rw [Function.iterate_one, tick, beginTick_phase h, serve_ones (by omega),
    show credit + r.numerator - count * r.denominator = left by omega,
    serve_blocked (hleast.trans_le (Nat.mul_le_mul_right _ hatoms))]
  simp

/-- Ticks in which one-atom requests leave less than an atom of credit. -/
theorem serves_drain (r : SimpleDramRate) (ticks : Nat) :
    ∃ l : List Nat, (∀ x ∈ l, x = 1) ∧
      r.Serves 0 ticks l (ticks * r.numerator % r.denominator) 1 ∧
        l.sum * r.denominator + ticks * r.numerator % r.denominator = ticks * r.numerator := by
  induction ticks with
  | zero => exact ⟨[], by simp [Serves]⟩
  | succ ticks ih =>
    obtain ⟨l, hones, hserves, hsum⟩ := ih
    have hphase := Nat.mod_lt (ticks * r.numerator) r.denominator_pos
    have hmod : (ticks + 1) * r.numerator % r.denominator =
        (ticks * r.numerator % r.denominator + r.numerator) % r.denominator := by
      rw [Nat.add_mul, Nat.one_mul, Nat.mod_add_mod]
    have hdiv := Nat.div_add_mod (ticks * r.numerator % r.denominator + r.numerator) r.denominator
    rw [Nat.mul_comm] at hdiv
    refine ⟨l ++ List.replicate
      ((ticks * r.numerator % r.denominator + r.numerator) / r.denominator) 1, ?_, ?_, ?_⟩
    · intro x hx
      rcases List.mem_append.mp hx with hx | hx
      · exact hones x hx
      · exact List.eq_of_mem_replicate hx
    · apply hserves.trans
      · rw [hmod]
        apply serves_ones hphase hdiv
        rw [Nat.one_mul]
        exact Nat.mod_lt _ r.denominator_pos
      · intro atoms hatoms x hx
        rcases List.mem_append.mp (List.mem_of_mem_head? hx) with hx | hx
        · rw [List.eq_of_mem_replicate hx]
        · rw [List.mem_singleton.mp hx]
          exact hatoms
    · rw [List.sum_append, List.sum_replicate, smul_eq_mul, Nat.mul_one, hmod, Nat.add_mul,
        Nat.add_mul, Nat.one_mul]
      omega

/-- Ticks in which a largest request waits. -/
theorem serves_wait {ticks : Nat}
    (h : credit + ticks * r.numerator < r.maxRequestAtoms * r.denominator) :
    r.Serves credit ticks [] (credit + ticks * r.numerator) r.maxRequestAtoms := by
  induction ticks with
  | zero =>
    intro atoms rest served _
    simp
  | succ ticks ih =>
    rw [Nat.add_mul, Nat.one_mul] at h
    intro atoms rest served hatoms
    rw [Function.iterate_succ_apply', ih (by omega) atoms rest served hatoms, tick]
    have hbegin : r.beginTick (credit + ticks * r.numerator) =
        credit + ticks * r.numerator + r.numerator := by
      apply beginTick_eq
      have hcap := r.maxRequest_le_cap
      have hpos := r.denominator_pos
      unfold creditCap
      omega
    rw [hbegin, serve_blocked]
    · rw [Nat.add_mul, Nat.one_mul, Nat.add_assoc]
    · have := Nat.mul_le_mul_right r.denominator hatoms
      omega

/-- The credit with which the tick of the cap is entered: with the numerator it makes whole
atoms, more than the cap keeps. -/
def entry (r : SimpleDramRate) : Nat :=
  (r.maxRequestAtoms - 1) * r.denominator + (r.maxServiceAtoms * r.denominator - r.numerator)

theorem entry_add (r : SimpleDramRate) :
    r.entry + r.numerator = (r.maxRequestAtoms - 1 + r.maxServiceAtoms) * r.denominator := by
  have := r.maxServiceAtoms_mul
  unfold entry
  rw [Nat.add_mul]
  omega

theorem entry_lt (r : SimpleDramRate) : r.entry < r.maxRequestAtoms * r.denominator := by
  have hserv := r.maxServiceAtoms_mul
  have hsplit : r.maxRequestAtoms * r.denominator =
      (r.maxRequestAtoms - 1) * r.denominator + r.denominator := by
    rw [← Nat.succ_mul, Nat.succ_eq_add_one, Nat.sub_add_cancel r.maxRequestAtoms_pos]
  unfold entry
  omega

/-- More than one atom a tick, and requests of more than one atom. -/
def Overruns (r : SimpleDramRate) : Prop :=
  2 ≤ r.maxRequestAtoms ∧ r.denominator < r.numerator

theorem Overruns.atoms_lt (h : r.Overruns) :
    max r.maxServiceAtoms r.maxRequestAtoms < r.maxRequestAtoms - 1 + r.maxServiceAtoms := by
  obtain ⟨hatoms, hrate⟩ := h
  have hserv : 2 ≤ r.maxServiceAtoms := by
    by_contra hlt
    have := Nat.mul_le_mul_right r.denominator (Nat.le_of_lt_succ (Nat.lt_of_not_le hlt))
    have := r.maxServiceAtoms_mul
    omega
  omega

/-- The ticks up to the credit of `entry`, a largest request waiting. -/
theorem serves_entry (r : SimpleDramRate) :
    ∃ ticks l, r.Serves 0 ticks l r.entry r.maxRequestAtoms ∧ (∀ x ∈ l, x = 1) ∧
      l.sum * r.denominator + r.entry = ticks * r.numerator := by
  have hsplit := Nat.div_add_mod r.entry r.numerator
  rw [Nat.mul_comm] at hsplit
  have hrest := Nat.mod_lt r.entry r.numerator_pos
  -- the wait of `k` ticks starts where the phase of the ticks before meets that of the entry
  generalize r.entry / r.numerator = k at hsplit
  generalize r.entry % r.numerator = x at hsplit hrest
  obtain ⟨l, hones, hdrain, hsum⟩ := r.serves_drain ((r.denominator - 1) * (k + 2))
  have hden : r.denominator = r.denominator - 1 + 1 := by
    have := r.denominator_pos
    omega
  have hcycle : (r.denominator - 1) * (k + 2) * r.numerator + (k + 2) * r.numerator =
      (k + 2) * r.numerator * r.denominator := by
    rw [← Nat.add_mul, ← Nat.succ_mul, Nat.succ_eq_add_one, ← hden, Nat.mul_assoc, Nat.mul_comm]
  have hphase := Nat.mod_lt ((r.denominator - 1) * (k + 2) * r.numerator) r.denominator_pos
  generalize (r.denominator - 1) * (k + 2) * r.numerator % r.denominator = phase at hdrain hsum hphase
  have hentry := r.entry_add
  have hlt := r.entry_lt
  have hk : (k + 2) * r.numerator = k * r.numerator + 2 * r.numerator := Nat.add_mul _ _ _
  -- both sides are whole atoms below the same multiple
  obtain ⟨count, hcount⟩ : ∃ count, count * r.denominator + x = phase + r.numerator := by
    have hdvd : r.denominator ∣ phase + r.numerator - x := by
      have hall : phase + r.numerator - x + (r.maxRequestAtoms - 1 + r.maxServiceAtoms +
          l.sum) * r.denominator = (k + 2) * r.numerator * r.denominator := by
        rw [Nat.add_mul, ← hentry]
        omega
      exact (Nat.dvd_add_left (Nat.dvd_mul_left _ _)).mp (hall ▸ Nat.dvd_mul_left _ _)
    obtain ⟨count, hcount⟩ := hdvd
    exact ⟨count, by rw [Nat.mul_comm, ← hcount]; omega⟩
  have hfirst : r.Serves phase 1 (List.replicate count 1) x r.maxRequestAtoms :=
    serves_ones hphase hcount (by omega)
  have hwait : r.Serves x k [] r.entry r.maxRequestAtoms := by
    have hx : r.entry = x + k * r.numerator := by omega
    rw [hx]
    exact serves_wait (by omega)
  have happroach := hfirst.trans hwait (fun atoms hatoms y hy => by cases hy; exact hatoms)
  refine ⟨_, _, hdrain.trans happroach ?_, ?_, ?_⟩
  · intro atoms hatoms y hy
    have hmem := List.mem_of_mem_head? hy
    rw [List.append_nil] at hmem
    rcases List.mem_append.mp hmem with hmem | hmem
    · rw [List.eq_of_mem_replicate hmem]
    · rw [List.mem_singleton.mp hmem]
      exact r.maxRequestAtoms_pos.trans_le hatoms
  · intro y hy
    rw [List.append_nil] at hy
    rcases List.mem_append.mp hy with hy | hy
    · exact hones y hy
    · exact List.eq_of_mem_replicate hy
  · rw [List.append_nil, List.sum_append, List.sum_replicate, smul_eq_mul, Nat.mul_one, Nat.add_mul,
      Nat.add_mul, Nat.add_mul, Nat.one_mul]
    omega

/-- The tick of the cap: the credit is cut to the cap, and all of it is served. -/
theorem Overruns.serves_cut (h : r.Overruns) :
    r.Serves r.entry 1 (r.maxRequestAtoms ::
      List.replicate (max r.maxServiceAtoms r.maxRequestAtoms - r.maxRequestAtoms) 1) 0 1 := by
  intro atoms rest served hatoms
  have hcut : r.beginTick r.entry = r.wholeCreditCap := by
    have hlt := h.atoms_lt
    have hmul := Nat.mul_le_mul_right r.denominator (Nat.succ_le_of_lt hlt)
    rw [Nat.succ_mul] at hmul
    have hpos := r.denominator_pos
    rw [beginTick_of_lt, r.entry_add, Nat.mul_mod_left, Nat.add_zero]
    rw [r.entry_add]
    unfold creditCap wholeCreditCap
    omega
  have hcap := r.maxRequest_le_cap
  rw [Function.iterate_one, tick, hcut, List.cons_append, serve,
    if_pos (by simpa [canService] using hcap), spend]
  have hleft : (max r.maxServiceAtoms r.maxRequestAtoms - r.maxRequestAtoms) * r.denominator =
      r.wholeCreditCap - r.maxRequestAtoms * r.denominator := by
    rw [Nat.sub_mul]
    rfl
  rw [serve_ones (by rw [hleft]), hleft, Nat.sub_self, serve_blocked]
  · simp
  · exact Nat.mul_pos hatoms r.denominator_pos

/-- A rate above one atom per tick is not served once a request may have two atoms. -/
theorem Overruns.not_servesRate (h : r.Overruns) : ¬ r.ServesRate := by
  obtain ⟨ticks, l, hentry, hones, hsum⟩ := r.serves_entry
  have hpos := r.maxRequestAtoms_pos
  have hhead : ∀ {least : Nat} (l' : List Nat), (∀ x ∈ l', x = 1) → 1 ≤ least → ∀ atoms, least ≤ atoms →
      ∀ x, (l' ++ [atoms]).head? = some x → 1 ≤ x := by
    intro least l' hl' hleast atoms hatoms x hx
    rcases List.mem_append.mp (List.mem_of_mem_head? hx) with hx | hx
    · rw [hl' x hx]
    · rw [List.mem_singleton.mp hx]
      exact hleast.trans hatoms
  have hall := (hentry.trans h.serves_cut (by intro _ _ x hx; cases hx; exact le_refl _)).trans
    hentry (hhead l hones hpos)
  intro hserves
  have hend := hall r.maxRequestAtoms [] 0 (le_refl _)
  have hsizes : ∀ atoms ∈ l ++ (r.maxRequestAtoms :: List.replicate
      (max r.maxServiceAtoms r.maxRequestAtoms - r.maxRequestAtoms) 1) ++ l ++ [r.maxRequestAtoms],
      1 ≤ atoms ∧ atoms ≤ r.maxRequestAtoms := by
    intro atoms hmem
    have hcases : atoms = 1 ∨ atoms = r.maxRequestAtoms := by
      simp only [List.mem_append, List.mem_cons, List.mem_replicate, List.not_mem_nil, or_false]
        at hmem
      rcases hmem with ((hmem | hmem | ⟨-, hmem⟩) | hmem) | hmem
      · exact .inl (hones atoms hmem)
      · exact .inr hmem
      · exact .inl hmem
      · exact .inl (hones atoms hmem)
      · exact .inr hmem
    rcases hcases with rfl | rfl
    · exact ⟨le_refl _, hpos⟩
    · exact ⟨hpos, le_refl _⟩
  have hbound := hserves _ hsizes (ticks + 1 + ticks) (by
    unfold serviceAfter
    rw [hend]
    exact List.cons_ne_nil _ _)
  unfold serviceAfter at hbound
  rw [hend] at hbound
  simp only [List.sum_append, List.sum_cons, List.sum_replicate, smul_eq_mul, Nat.mul_one,
    Nat.zero_add] at hbound
  -- a tick's loss and the waiting credit together are a largest request
  have hlt := h.atoms_lt
  have hmul := Nat.mul_le_mul_right r.denominator (Nat.succ_le_of_lt hlt)
  rw [Nat.succ_mul, ← r.entry_add] at hmul
  have hentry' : (r.maxRequestAtoms - 1) * r.denominator ≤ r.entry := Nat.le_add_right _ _
  have hmax : r.maxRequestAtoms + (max r.maxServiceAtoms r.maxRequestAtoms - r.maxRequestAtoms) =
      max r.maxServiceAtoms r.maxRequestAtoms := by omega
  rw [hmax] at hbound
  have hviolated : l.sum + max r.maxServiceAtoms r.maxRequestAtoms + l.sum +
      (r.maxRequestAtoms - 1) + 1 ≤ (ticks + 1 + ticks) * r.numerator / r.denominator := by
    rw [Nat.le_div_iff_mul_le r.denominator_pos]
    simp only [Nat.add_mul, Nat.one_mul]
    omega
  omega

/-- The service stays within the rate and the cap for every call sequence. It keeps up with the
rate for every sequence of requests exactly when no request is larger than one atom or the rate
is at most one atom per tick. -/
theorem serves_rate_iff (r : SimpleDramRate) :
    r.ServesRate ∧ r.StaysCapped ↔ r.maxRequestAtoms = 1 ∨ r.numerator ≤ r.denominator := by
  constructor
  · rintro ⟨hserves, -⟩
    by_contra hneither
    rw [not_or, Nat.not_le] at hneither
    have hpos := r.maxRequestAtoms_pos
    have hoverruns : r.Overruns := ⟨by omega, hneither.2⟩
    exact hoverruns.not_servesRate hserves
  · intro hsmall
    exact ⟨.of_small hsmall, r.staysCapped⟩

/-- At three atoms in two ticks, two-atom requests are served in every second tick only. -/
theorem serves_rate_lost : ¬ ∀ r : SimpleDramRate, r.ServesRate ∧ r.StaysCapped := by
  intro h
  have hserves := (h ⟨3, 2, 2, by decide, by decide, by decide, by decide, by decide,
    by decide⟩).1 [2, 2, 2] (by decide) 4 (by decide)
  revert hserves
  decide

end SimpleDramRate

end FlashGpuSim
