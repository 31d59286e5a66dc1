import FlashGpuSim.Lib.SingleServer
import FlashGpuSim.Tcgen05.Completion

/-!
The MMA backend as a single server: the busy-period fields of `enqueue_thread_op` give the
rounded finishing times of the exact queue.
-/

namespace FlashGpuSim

open Lib

namespace Tcgen05Unit

variable {u u' : Tcgen05Unit}

/-- The job that a call gives to the MMA backend. -/
def TimingCall.job? : TimingCall → Option Job
  | .enqueueThreadOp _ op now =>
    if op.kind = .mma then some { arrival := now, work := op.work } else none
  | _ => none

/-- `backend_done_cycle` of the operation that was enqueued last. -/
def lastBackendDone (u : Tcgen05Unit) : Nat :=
  (u.pendingOps.getLast?.map PendingOp.backendDoneCycle).getD 0

/-- The jobs that a run gives to the MMA backend, each with its `backend_done_cycle`. -/
def mmaTrace : Tcgen05Unit → List TimingCall → Except TimingFailure (List (Job × Nat))
  | _, [] => .ok []
  | u, call :: rest => do
    let u ← u.step call
    let served ← mmaTrace u rest
    return match TimingCall.job? call with
      | some job => (job, u.lastBackendDone) :: served
      | none => served

/-- The 64-bit fields hold the work and the end of the busy period. -/
def Fits (rate : Nat) (s : Server) : Prop := s.work + rate - 1 < 2 ^ 64 ∧ ⌈s.free⌉₊ < 2 ^ 64

/-- The fields of the backend are those of the exact server. -/
def Follows (u : Tcgen05Unit) (s : Server) : Prop :=
  s.Period u.config.mmaF16FlopsPerCycle u.mmaBusyPeriodStartCycle u.mmaBusyPeriodWork
    u.mmaBackendAvailableCycle

theorem resolveControls_backend (u : Tcgen05Unit) :
    u.resolveControls.config = u.config ∧
      u.resolveControls.mmaBusyPeriodStartCycle = u.mmaBusyPeriodStartCycle ∧
      u.resolveControls.mmaBusyPeriodWork = u.mmaBusyPeriodWork ∧
      u.resolveControls.mmaBackendAvailableCycle = u.mmaBackendAvailableCycle :=
  ⟨rfl, rfl, rfl, rfl⟩

/-- No other call touches the backend. -/
theorem step_backend {call : TimingCall} (hok : u.step call = .ok u')
    (hjob : TimingCall.job? call = none) :
    u'.config = u.config ∧ u'.mmaBusyPeriodStartCycle = u.mmaBusyPeriodStartCycle ∧
      u'.mmaBusyPeriodWork = u.mmaBusyPeriodWork ∧
      u'.mmaBackendAvailableCycle = u.mmaBackendAvailableCycle := by
  cases call with
  | enqueueThreadOp stream op cycle =>
    have hkind : op.kind ≠ .mma := by
      intro heq
      simp [TimingCall.job?, heq] at hjob
    obtain ⟨_, -, hok⟩ := bind_eq_ok hok
    obtain ⟨_, -, hok⟩ := bind_eq_ok hok
    rw [if_neg hkind] at hok
    obtain ⟨_, -, hok⟩ := bind_eq_ok hok
    cases hok
    exact ⟨rfl, rfl, rfl, rfl⟩
  | enqueueWarpMemOp stream op cycle =>
    obtain ⟨_, -, hok⟩ := bind_eq_ok hok
    obtain ⟨_, -, hok⟩ := bind_eq_ok hok
    obtain ⟨_, -, hok⟩ := bind_eq_ok hok
    cases hok
    exact ⟨rfl, rfl, rfl, rfl⟩
  | commit stream mbarrierAddr =>
    cases hok
    exact resolveControls_backend _
  | waitLd stream =>
    cases hok
    unfold waitLd wait
    dsimp only
    split <;> exact ⟨rfl, rfl, rfl, rfl⟩
  | waitSt stream =>
    cases hok
    unfold waitSt wait
    dsimp only
    split <;> exact ⟨rfl, rfl, rfl, rfl⟩
  | cycle now =>
    cases hok
    exact resolveControls_backend _
  | takeCompletionEvents =>
    cases hok
    exact ⟨rfl, rfl, rfl, rfl⟩
  | cleanupCta hwCtaId =>
    cases hok
    exact ⟨rfl, rfl, rfl, rfl⟩

/-- An MMA operation gets the rounded end of its job in the exact queue. -/
theorem Follows.enqueueMma {s : Server} (h : u.Follows s) (stream : ThreadStreamKey) {job : Job}
    (hwork : 0 < job.work) (hfits : Fits u.config.mmaF16FlopsPerCycle
      (s.serve u.config.mmaF16FlopsPerCycle job)) :
    (u.enqueueMma stream job.work job.arrival).Follows
        (s.serve u.config.mmaF16FlopsPerCycle job) ∧
      (u.enqueueMma stream job.work job.arrival).lastBackendDone =
        ⌈(s.serve u.config.mmaF16FlopsPerCycle job).free⌉₊ := by
  obtain ⟨rate, hrate⟩ : ∃ rate, u.config.mmaF16FlopsPerCycle = rate := ⟨_, rfl⟩
  have hpos : 0 < rate := hrate ▸ u.config.flops_pos
  unfold Follows at h ⊢
  rw [hrate] at h hfits ⊢
  -- the fields once the period and its work are known, without a wrap
  have hfields : ∀ start total, u.busyPeriod job.work job.arrival = (start, total) →
      (s.serve rate job).Period rate start total (start + (total + rate - 1) / rate) →
      0 < total →
      (s.serve rate job).Period (u.enqueueMma stream job.work
          job.arrival).config.mmaF16FlopsPerCycle
        (u.enqueueMma stream job.work job.arrival).mmaBusyPeriodStartCycle
        (u.enqueueMma stream job.work job.arrival).mmaBusyPeriodWork
        (u.enqueueMma stream job.work job.arrival).mmaBackendAvailableCycle ∧
      (u.enqueueMma stream job.work job.arrival).lastBackendDone =
        ⌈(s.serve rate job).free⌉₊ := by
    intro start total hperiod hnext htotal
    obtain ⟨hfit, hend⟩ := hfits
    rw [← hnext.work] at hfit
    rw [← hnext.available] at hend
    have hround : (add64 total rate + 2 ^ 64 - 1) % 2 ^ 64 = total + rate - 1 := by
      unfold add64
      omega
    have hcycles : max 1 ((total + rate - 1) / rate) = (total + rate - 1) / rate := by
      apply max_eq_right
      rw [Nat.one_le_div_iff hpos]
      omega
    have hdone : add64 start ((total + rate - 1) / rate) = start + (total + rate - 1) / rate :=
      Nat.mod_eq_of_lt hend
    have hunit : u.enqueueMma stream job.work job.arrival =
        { u.pushOp (.thread stream) .mma (start + (total + rate - 1) / rate)
            (add64 (start + (total + rate - 1) / rate) u.config.mmaCompletionTailLatency) with
          mmaBusyPeriodStartCycle := start
          mmaBusyPeriodWork := total
          mmaBackendAvailableCycle := start + (total + rate - 1) / rate
          nextIssueCycle := Function.update u.nextIssueCycle .mma
            (add64 job.arrival u.config.mmaIssueInterval) } := by
      unfold Tcgen05Unit.enqueueMma
      rw [hperiod]
      dsimp only
      rw [hrate, hround, hcycles, hdone]
    rw [hunit]
    refine ⟨?_, ?_⟩
    · rw [← hrate] at hnext ⊢
      exact hnext
    · rw [← hnext.available]
      simp [lastBackendDone, pushOp]
  rcases Nat.lt_or_ge job.arrival u.mmaBackendAvailableCycle with hbusy | hidle
  · have hnext := h.extend hpos hbusy
    have hsum : add64 u.mmaBusyPeriodWork job.work = u.mmaBusyPeriodWork + job.work := by
      have hfit := hfits.1
      rw [← hnext.work] at hfit
      exact Nat.mod_eq_of_lt (by omega)
    apply hfields u.mmaBusyPeriodStartCycle (u.mmaBusyPeriodWork + job.work) _ hnext (by omega)
    unfold busyPeriod
    rw [if_neg (Nat.not_le_of_lt hbusy), hsum]
  · apply hfields job.arrival job.work _ (h.open hpos hidle) hwork
    unfold busyPeriod
    rw [if_pos hidle]

/-- The jobs of a run. -/
def jobs (served : List (Job × Nat)) : List Job := served.map Prod.fst

/-- The run of the backend from a unit that follows a server. -/
theorem Follows.mmaTrace {s : Server} (h : u.Follows s) {calls : List TimingCall}
    {served : List (Job × Nat)} (hok : u.mmaTrace calls = .ok served)
    (hfits : ∀ n < served.length, Fits u.config.mmaF16FlopsPerCycle
      (((jobs served).take (n + 1)).foldl (Server.serve u.config.mmaF16FlopsPerCycle) s)) :
    ∀ n x, served[n]? = some x → x.2 =
      ⌈(((jobs served).take (n + 1)).foldl (Server.serve u.config.mmaF16FlopsPerCycle) s).free⌉₊ := by
  induction calls generalizing u s served with
  | nil =>
    cases hok
    intro n x hx
    cases hx
  | cons call rest ih =>
    obtain ⟨u', hstep, hok⟩ := bind_eq_ok hok
    obtain ⟨more, hmore, hok⟩ := bind_eq_ok hok
    cases hok
    cases hjob : TimingCall.job? call with
    | none =>
      rw [hjob] at hfits
      obtain ⟨hconfig, hstart, hwork, havailable⟩ := step_backend hstep hjob
      have hnext : u'.Follows s := by
        unfold Follows
        rw [hconfig, hstart, hwork, havailable]
        exact h
      rw [← hconfig] at hfits ⊢
      exact ih hnext hmore hfits
    | some job =>
      rw [hjob] at hfits
      obtain ⟨stream, op, rfl, hop, hkind⟩ : ∃ stream op,
          call = .enqueueThreadOp stream op job.arrival ∧ op.work = job.work ∧
            op.kind = .mma := by
        cases call with
        | enqueueThreadOp stream op cycle =>
          simp only [TimingCall.job?] at hjob
          split at hjob
          · rename_i hkind
            cases hjob
            exact ⟨stream, op, rfl, rfl, hkind⟩
          · cases hjob
        | _ => cases hjob
      obtain ⟨_, -, hstep⟩ := bind_eq_ok hstep
      obtain ⟨_, -, hstep⟩ := bind_eq_ok hstep
      rw [if_pos hkind, hop] at hstep
      obtain ⟨_, hwork, hstep⟩ := bind_eq_ok hstep
      cases hstep
      have hfirst := hfits 0 (Nat.succ_pos _)
      obtain ⟨hnext, hdone⟩ := h.enqueueMma stream (require_ok hwork) hfirst
      intro n x hx
      cases n with
      | zero =>
        cases hx
        exact hdone
      | succ n =>
        refine ih hnext hmore ?_ n x hx
        intro n hn
        exact hfits (n + 1) (Nat.succ_lt_succ hn)

/-- As long as its 64-bit fields do not wrap, the backend is a single server in exact
arithmetic: the operations end at the rounded times of the server, in their order, and over an
interval that starts with a busy period no more work ends than the rate allows. -/
theorem backend_single_server {config : TimingConfig} {calls : List TimingCall}
    {served : List (Job × Nat)}
    (hok : ({ config := config } : Tcgen05Unit).mmaTrace calls = .ok served)
    (hfits : ∀ n < served.length, Fits config.mmaF16FlopsPerCycle
      (Server.after config.mmaF16FlopsPerCycle ((jobs served).take (n + 1)))) :
    (∀ n x, served[n]? = some x → x.2 =
      ⌈(Server.after config.mmaF16FlopsPerCycle ((jobs served).take (n + 1))).free⌉₊) ∧
    served.Pairwise (fun x y => x.2 ≤ y.2) ∧
    ∀ n x T, served[n]? = some x →
      (Server.after config.mmaF16FlopsPerCycle ((jobs served).take n)).free ≤ x.1.arrival →
      ((served.filter fun y => decide (x.1.arrival < y.2 ∧ y.2 ≤ x.1.arrival + T)).map
        fun y => y.1.work).sum ≤ T * config.mmaF16FlopsPerCycle := by
  have hinit : ({ config := config } : Tcgen05Unit).Follows {} := Server.period_init _
  have hdone := hinit.mmaTrace hok hfits
  refine ⟨hdone, ?_, ?_⟩
  · rw [List.pairwise_iff_getElem]
    intro i j hi hj hij
    rw [hdone i _ (List.getElem?_eq_getElem hi), hdone j _ (List.getElem?_eq_getElem hj)]
    exact Nat.ceil_mono (Server.free_mono _ (Nat.succ_le_succ hij.le) _)
  · intro n x T hx hidle
    exact Server.Finishes.busy_work_le hdone config.flops_pos hx hidle

/-- Two operations share a cycle: the second starts in the middle of it. -/
theorem backend_single_server_witness :
    ∃ served, ({ config := { mmaF16FlopsPerCycle := 2 } } : Tcgen05Unit).mmaTrace
        [.enqueueThreadOp {} { work := 3 } 0, .enqueueThreadOp {} { work := 3 } 1] = .ok served ∧
      served.Pairwise (fun x y => x.2 ≤ y.2) := by
  have hok : ({ config := { mmaF16FlopsPerCycle := 2 } } : Tcgen05Unit).mmaTrace
      [.enqueueThreadOp {} { work := 3 } 0, .enqueueThreadOp {} { work := 3 } 1] =
        .ok [(⟨0, 3⟩, 2), (⟨1, 3⟩, 3)] := by
    rfl
  refine ⟨_, hok, (backend_single_server hok fun n hn => ?_).2.1⟩
  have hcases : n = 0 ∨ n = 1 := by
    simp only [List.length_cons, List.length_nil] at hn
    omega
  rcases hcases with rfl | rfl
  · refine ⟨by norm_num [jobs, Server.after, Server.serve], ?_⟩
    apply Nat.lt_of_le_of_lt (Nat.ceil_le.mpr _ : _ ≤ 3) (by decide)
    norm_num [jobs, Server.after, Server.serve]
  · refine ⟨by norm_num [jobs, Server.after, Server.serve], ?_⟩
    apply Nat.lt_of_le_of_lt (Nat.ceil_le.mpr _ : _ ≤ 3) (by decide)
    norm_num [jobs, Server.after, Server.serve]

/-- The sum of the work and the rate wraps, and the operation is done after one cycle. -/
theorem backend_single_server_counterexample :
    ¬ ∀ (config : TimingConfig) (calls : List TimingCall) (served : List (Job × Nat)),
      ({ config := config } : Tcgen05Unit).mmaTrace calls = .ok served →
      ∀ n x, served[n]? = some x → x.2 =
        ⌈(Server.after config.mmaF16FlopsPerCycle ((jobs served).take (n + 1))).free⌉₊ := by
  intro hall
  have hok : ({ config := { mmaF16FlopsPerCycle := 2 } } : Tcgen05Unit).mmaTrace
      [.enqueueThreadOp {} { work := 2 ^ 64 - 1 } 0] = .ok [(⟨0, 2 ^ 64 - 1⟩, 1)] := by
    rfl
  have hdone := hall _ _ _ hok 0 _ rfl
  have hfree : (Server.after 2 [⟨0, 2 ^ 64 - 1⟩]).free =
      (0 : Nat) + ((2 ^ 64 - 1 : Nat) : ℚ) / (2 : Nat) := by
    norm_num [Server.after, Server.serve]
  have hceil := Server.ceil_start_add (by decide : 0 < 2) 0 (2 ^ 64 - 1)
  rw [← hfree] at hceil
  have hwrong : (1 : Nat) = 0 + (2 ^ 64 - 1 + 2 - 1) / 2 := hdone.trans hceil
  omega

end Tcgen05Unit

end FlashGpuSim
