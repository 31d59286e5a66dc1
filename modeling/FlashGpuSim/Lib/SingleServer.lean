import Mathlib.Algebra.Order.Floor.Semiring
import Mathlib.Data.Rat.Floor
import Mathlib.Tactic.FieldSimp
import Mathlib.Tactic.Linarith

/-!
A server that does its jobs one after the other at a fixed rate, in exact arithmetic. A job
starts when it has arrived and the job before it is finished. While the server is busy the
rounded finishing times follow from the start of the busy period and the work done in it.
-/

namespace Lib

structure Job where
  arrival : ℕ
  work : ℕ
  deriving DecidableEq, Repr

/-- When the server is free, and the work since it was last idle. -/
structure Server where
  free : ℚ := 0
  work : ℕ := 0

namespace Server

variable {rate : ℕ} {s : Server} {job : Job} {jobs : List Job}

def serve (rate : ℕ) (s : Server) (job : Job) : Server where
  free := max s.free job.arrival + job.work / rate
  work := if s.free ≤ job.arrival then job.work else s.work + job.work

/-- The server after some jobs. -/
def after (rate : ℕ) (jobs : List Job) : Server := jobs.foldl (serve rate) {}

@[simp] theorem after_nil (rate : ℕ) : after rate [] = {} := rfl

@[simp] theorem after_concat (rate : ℕ) (jobs : List Job) (job : Job) :
    after rate (jobs ++ [job]) = (after rate jobs).serve rate job := by
  simp [after, List.foldl_append]

/-- A job takes its work, from the end of the job before it at the earliest. -/
theorem free_add_le_serve (rate : ℕ) (s : Server) (job : Job) :
    s.free + job.work / rate ≤ (s.serve rate job).free := by
  unfold serve
  have hmax := le_max_left s.free (job.arrival : ℚ)
  dsimp only
  linarith

theorem arrival_add_le_serve (rate : ℕ) (s : Server) (job : Job) :
    job.arrival + (job.work : ℚ) / rate ≤ (s.serve rate job).free := by
  unfold serve
  have hmax := le_max_right s.free (job.arrival : ℚ)
  dsimp only
  linarith

theorem free_le_serve (rate : ℕ) (s : Server) (job : Job) : s.free ≤ (s.serve rate job).free := by
  have hpos : (0 : ℚ) ≤ job.work / rate := by positivity
  have hle := free_add_le_serve rate s job
  linarith

/-- The server is busy for the work of the jobs that follow. -/
theorem free_add_le_foldl (rate : ℕ) (s : Server) (jobs : List Job) :
    s.free + ((jobs.map Job.work).sum : ℕ) / (rate : ℚ) ≤ (jobs.foldl (serve rate) s).free := by
  induction jobs generalizing s with
  | nil => simp
  | cons job rest ih =>
    have hjob := free_add_le_serve rate s job
    have hrest := ih (s.serve rate job)
    rw [List.map_cons, List.sum_cons, Nat.cast_add, add_div, List.foldl_cons]
    linarith

theorem free_mono (rate : ℕ) {m n : ℕ} (hmn : m ≤ n) (jobs : List Job) :
    (after rate (jobs.take m)).free ≤ (after rate (jobs.take n)).free := by
  obtain ⟨k, rfl⟩ := Nat.exists_eq_add_of_le hmn
  have hpos : (0 : ℚ) ≤ (((jobs.drop m).take k).map Job.work).sum / (rate : ℚ) := by positivity
  have hle := free_add_le_foldl rate (after rate (jobs.take m)) ((jobs.drop m).take k)
  unfold after at hle ⊢
  rw [List.take_add, List.foldl_append]
  linarith

/-- The finishing times of some jobs, rounded up. -/
def Finishes (rate : ℕ) (s : Server) (served : List (Job × ℕ)) : Prop :=
  ∀ n x, served[n]? = some x →
    x.2 = ⌈(((served.map Prod.fst).take (n + 1)).foldl (serve rate) s).free⌉₊

theorem Finishes.tail {x : Job × ℕ} {rest : List (Job × ℕ)}
    (h : Finishes rate s (x :: rest)) : Finishes rate (s.serve rate x.1) rest :=
  fun n y hy => h (n + 1) y hy

/-- The server does at most `rate` work in each unit of time. -/
theorem Finishes.work_le {served : List (Job × ℕ)} (h : Finishes rate s served) {last : ℕ}
    {p : Job × ℕ → Bool} (hp : ∀ x, p x = true → x.2 ≤ last) :
    ((((served.filter p).map fun x => x.1.work).sum : ℕ) : ℚ) / rate ≤ max 0 (last - s.free) := by
  induction served generalizing s with
  | nil => simp
  | cons x rest ih =>
    have hrest := ih h.tail
    have hjob := free_add_le_serve rate s x.1
    have hmono := free_le_serve rate s x.1
    cases hpx : p x with
    | false =>
      rw [List.filter_cons_of_neg (by simp [hpx])]
      exact hrest.trans (max_le_max le_rfl (by linarith))
    | true =>
      have hend : (s.serve rate x.1).free ≤ last := by
        have hx := h 0 x rfl
        have hle := hp x hpx
        rw [hx, Nat.ceil_le] at hle
        exact hle
      rw [max_eq_right (by linarith)] at hrest
      rw [List.filter_cons_of_pos hpx, List.map_cons, List.sum_cons, Nat.cast_add, add_div]
      apply le_max_of_le_right
      linarith

/-- The jobs that finish in an interval that starts with a busy period. -/
theorem Finishes.busy_work_le {served : List (Job × ℕ)} (h : Finishes rate {} served)
    (hrate : 0 < rate) {n T : ℕ} {x : Job × ℕ} (hx : served[n]? = some x)
    (hidle : (after rate ((served.map Prod.fst).take n)).free ≤ x.1.arrival) :
    ((served.filter fun y => decide (x.1.arrival < y.2 ∧ y.2 ≤ x.1.arrival + T)).map
      fun y => y.1.work).sum ≤ T * rate := by
  obtain ⟨p, hp⟩ : ∃ p : Job × ℕ → Bool,
      (fun y => decide (x.1.arrival < y.2 ∧ y.2 ≤ x.1.arrival + T)) = p := ⟨_, rfl⟩
  have hlast : ∀ y, p y = true → y.2 ≤ x.1.arrival + T := by
    intro y hy
    rw [← hp] at hy
    exact (of_decide_eq_true hy).2
  -- the jobs before the busy period are finished when it starts
  have hbefore : (served.take n).filter p = [] := by
    rw [List.filter_eq_nil_iff]
    intro y hy hpy
    obtain ⟨m, hm⟩ := List.mem_iff_getElem?.mp hy
    have hmn : m < n := by
      have hlt := (List.getElem?_eq_some_iff.mp hm).1
      rw [List.length_take] at hlt
      omega
    rw [List.getElem?_take_of_lt hmn] at hm
    have hdone := h m y hm
    have hle := free_mono rate (Nat.succ_le_of_lt hmn) (served.map Prod.fst)
    have hceil : y.2 ≤ x.1.arrival := by
      rw [hdone, Nat.ceil_le]
      exact hle.trans hidle
    rw [← hp] at hpy
    exact Nat.not_lt_of_le hceil (of_decide_eq_true hpy).1
  obtain ⟨rest, hdrop⟩ : ∃ rest, served.drop n = x :: rest := by
    obtain ⟨hn, rfl⟩ := List.getElem?_eq_some_iff.mp hx
    exact ⟨_, List.drop_eq_getElem_cons hn⟩
  obtain ⟨s, hs⟩ : ∃ s, after rate ((served.map Prod.fst).take n) = s := ⟨_, rfl⟩
  have hfrom : Finishes rate s (x :: rest) := by
    intro m y hy
    rw [← hdrop, List.getElem?_drop] at hy
    rw [h (n + m) y hy, ← hs, ← hdrop]
    unfold after
    rw [← List.foldl_append, List.map_drop, ← List.take_add]
    rfl
  have hstart := arrival_add_le_serve rate s x.1
  have hrest := hfrom.tail.work_le hlast
  have hwork : (((x :: rest).filter p).map fun y => y.1.work).sum ≤ T * rate := by
    have hrate' : (0 : ℚ) < rate := Nat.cast_pos.mpr hrate
    have htime : (((((x :: rest).filter p).map fun y => y.1.work).sum : ℕ) : ℚ) / rate ≤ T := by
      have hT : (0 : ℚ) ≤ T := Nat.cast_nonneg T
      have hw : (0 : ℚ) ≤ x.1.work / rate := by positivity
      rw [Nat.cast_add] at hrest
      cases hpx : p x with
      | false =>
        rw [List.filter_cons_of_neg (by simp [hpx])]
        exact hrest.trans (max_le hT (by linarith))
      | true =>
        have hend : (s.serve rate x.1).free ≤ (x.1.arrival + T : ℕ) := by
          have hle := hlast x hpx
          rw [hfrom 0 x rfl, Nat.ceil_le] at hle
          exact hle
        rw [Nat.cast_add] at hend
        rw [max_eq_right (by linarith)] at hrest
        rw [List.filter_cons_of_pos hpx, List.map_cons, List.sum_cons, Nat.cast_add, add_div]
        linarith
    rw [div_le_iff₀ hrate', ← Nat.cast_mul] at htime
    exact Nat.cast_le.mp htime
  rw [hp, ← List.take_append_drop n served, List.filter_append, hbefore, List.nil_append, hdrop]
  exact hwork

/-- The rounded end of work that starts at a whole time. -/
theorem ceil_start_add (hrate : 0 < rate) (start work : ℕ) :
    ⌈(start : ℚ) + work / rate⌉₊ = start + (work + rate - 1) / rate := by
  have hrate' : (0 : ℚ) < rate := Nat.cast_pos.mpr hrate
  apply eq_of_forall_ge_iff
  intro n
  rw [Nat.ceil_le]
  have hscale : (start : ℚ) + work / rate ≤ n ↔ start * rate + work ≤ n * rate := by
    rw [← mul_le_mul_iff_of_pos_right hrate', add_mul, div_mul_cancel₀ _ hrate'.ne']
    exact_mod_cast Iff.rfl
  rw [hscale]
  rcases Nat.lt_or_ge n start with hlt | hge
  · constructor
    · intro hle
      have hmul := Nat.mul_lt_mul_of_pos_right hlt hrate
      omega
    · exact fun hle =>
        absurd (Nat.le_trans (Nat.le_add_right _ _) hle) (Nat.not_le_of_lt hlt)
  · obtain ⟨m, rfl⟩ := Nat.exists_eq_add_of_le hge
    have hround : (work + rate - 1) / rate ≤ m ↔ work ≤ m * rate := by
      rw [← Nat.lt_succ_iff, Nat.div_lt_iff_lt_mul hrate, Nat.succ_mul]
      omega
    rw [Nat.add_mul, Nat.add_le_add_iff_left, Nat.add_le_add_iff_left, hround]

/-- A busy period with the rounded time of its end. -/
structure Period (rate : ℕ) (s : Server) (start work available : ℕ) : Prop where
  free : s.free = start + (work : ℚ) / rate
  work : work = s.work
  available : available = ⌈s.free⌉₊

theorem period_init (rate : ℕ) : Period rate {} 0 0 0 := ⟨by simp, rfl, by simp⟩

/-- A job that arrives at the rounded end of the busy period, or later, opens a new one. -/
theorem Period.open {start work available : ℕ} (h : Period rate s start work available)
    (hrate : 0 < rate) (hidle : available ≤ job.arrival) :
    Period rate (s.serve rate job) job.arrival job.work
      (job.arrival + (job.work + rate - 1) / rate) := by
  have hfree : s.free ≤ job.arrival := by
    rw [h.available, Nat.ceil_le] at hidle
    exact hidle
  have hserve : (s.serve rate job).free = job.arrival + (job.work : ℚ) / rate := by
    simp only [serve]
    rw [max_eq_right hfree]
  refine ⟨hserve, ?_, ?_⟩
  · simp only [serve]
    rw [if_pos hfree]
  · rw [hserve, ceil_start_add hrate]

/-- A job that arrives before it extends the period, and no fraction is lost. -/
theorem Period.extend {start work available : ℕ} (h : Period rate s start work available)
    (hrate : 0 < rate) (hbusy : job.arrival < available) :
    Period rate (s.serve rate job) start (work + job.work)
      (start + (work + job.work + rate - 1) / rate) := by
  have hfree : ¬ s.free ≤ job.arrival := by
    rw [h.available, Nat.lt_ceil] at hbusy
    exact not_le_of_gt hbusy
  have hserve : (s.serve rate job).free = start + ((work + job.work : ℕ) : ℚ) / rate := by
    simp only [serve]
    rw [max_eq_left (le_of_not_ge hfree), h.free]
    rw [Nat.cast_add, add_div]
    exact add_assoc _ _ _
  refine ⟨hserve, ?_, ?_⟩
  · simp only [serve]
    rw [if_neg hfree, h.work]
  · rw [hserve, ceil_start_add hrate]

end Server

end Lib
