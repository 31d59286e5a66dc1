import FlashGpuSim.Warp.Shfl
import FlashGpuSim.Warp.Vote

/-!
When `shfl` and `vote` treat a warp as one. A vote that its last lane ends leaves nothing behind.
-/

namespace FlashGpuSim

open Lib

namespace Vote

variable {v : Vote} {s : VoteState} {lane j : Fin 32}

/-! ### The lanes that have voted -/

/-- The lanes below a number that execute the vote. -/
def voters (v : Vote) (s : VoteState) : Nat → List (Fin 32)
  | 0 => []
  | k + 1 =>
    if h : k < 32 then
      if v.executes s ⟨k, h⟩ then voters v s k ++ [⟨k, h⟩] else voters v s k
    else voters v s k

theorem voters_succ {k : Nat} (hk : k < 32) (he : v.executes s ⟨k, hk⟩ = true) :
    v.voters s (k + 1) = v.voters s k ++ [⟨k, hk⟩] := by
  rw [voters, dif_pos hk, if_pos he]

theorem voters_skip {k : Nat} (hk : k < 32) (he : v.executes s ⟨k, hk⟩ = false) :
    v.voters s (k + 1) = v.voters s k := by
  rw [voters, dif_pos hk, if_neg (by rw [he]; exact Bool.false_ne_true)]

theorem mem_voters {k : Nat} (hk : k ≤ 32) :
    lane ∈ v.voters s k ↔ lane.val < k ∧ v.executes s lane = true := by
  induction k with
  | zero => simp [voters]
  | succ k ih =>
    have ih := ih (Nat.le_of_succ_le hk)
    have hlane : lane.val < k + 1 ↔ lane.val < k ∨ lane = ⟨k, hk⟩ := by
      rw [Fin.ext_iff]
      exact Nat.lt_succ_iff_lt_or_eq
    cases he : v.executes s ⟨k, hk⟩ with
    | true =>
      rw [voters_succ hk he, List.mem_append, List.mem_singleton, ih, hlane]
      constructor
      · rintro (⟨hlt, hx⟩ | rfl)
        · exact ⟨.inl hlt, hx⟩
        · exact ⟨.inr rfl, he⟩
      · rintro ⟨hlt | heq, hx⟩
        · exact .inl ⟨hlt, hx⟩
        · exact .inr heq
    | false =>
      rw [voters_skip hk he, ih, hlane]
      constructor
      · rintro ⟨hlt, hx⟩
        exact ⟨.inl hlt, hx⟩
      · rintro ⟨hlt | rfl, hx⟩
        · exact ⟨hlt, hx⟩
        · rw [he] at hx
          cases hx

/-- The mask of the lanes with a true predicate. -/
def ballotOf (v : Vote) (s : VoteState) (lanes : List (Fin 32)) : BitVec 32 :=
  lanes.foldl (fun acc lane => if v.ballots s lane then acc ||| (1#32 <<< lane.val) else acc) 0#32

theorem getLsbD_setBit (acc : BitVec 32) (lane x : Fin 32) :
    (acc ||| (1#32 <<< x.val)).getLsbD lane = (acc.getLsbD lane || decide (lane = x)) := by
  rw [BitVec.getLsbD_or, BitVec.getLsbD_shiftLeft, BitVec.getLsbD_one,
    decide_eq_decide.mpr (Fin.ext_iff (a := lane) (b := x))]
  congr 1
  have hlane := lane.isLt
  rcases lt_trichotomy lane.val x.val with hlt | heq | hgt
  · rw [decide_eq_false (Nat.ne_of_lt hlt), decide_eq_true hlt, Bool.not_true, Bool.and_false,
      Bool.false_and]
  · rw [heq]
    simp
  · have hsub : lane.val - x.val ≠ 0 := Nat.sub_ne_zero_of_lt hgt
    simp [hsub, Nat.ne_of_gt hgt]

theorem getLsbD_ballotOf {lanes : List (Fin 32)} : (v.ballotOf s lanes).getLsbD lane =
    (decide (lane ∈ lanes) && v.ballots s lane) := by
  have hfold : ∀ acc : BitVec 32, (lanes.foldl
      (fun acc lane => if v.ballots s lane then acc ||| (1#32 <<< lane.val) else acc) acc).getLsbD
        lane = (acc.getLsbD lane || (decide (lane ∈ lanes) && v.ballots s lane)) := by
    induction lanes with
    | nil =>
      intro acc
      rw [List.foldl_nil, decide_eq_false List.not_mem_nil, Bool.false_and, Bool.or_false]
    | cons x lanes ih =>
      intro acc
      have hmem : decide (lane ∈ x :: lanes) = (decide (lane = x) || decide (lane ∈ lanes)) := by
        rw [← Bool.decide_or]
        exact decide_eq_decide.mpr List.mem_cons
      rw [List.foldl_cons, ih, hmem]
      cases hb : v.ballots s x with
      | true =>
        rw [if_pos rfl, getLsbD_setBit]
        by_cases heq : lane = x
        · rw [heq, hb]
          simp
        · rw [decide_eq_false heq, Bool.or_false, Bool.false_or]
      | false =>
        rw [if_neg Bool.false_ne_true]
        by_cases heq : lane = x
        · rw [heq, hb, Bool.and_false, Bool.and_false]
        · rw [decide_eq_false heq, Bool.false_or]
  unfold ballotOf
  rw [hfold, BitVec.getLsbD_zero, Bool.false_or]

/-- The variables after the votes of some lanes, with the number of the lane that ends the vote. -/
def collected (v : Vote) (s : VoteState) (last : Fin 32) (lanes : List (Fin 32)) : VoteStatics where
  firstInWarp := false
  andAll := lanes.all (v.ballots s)
  orAll := lanes.any (v.ballots s)
  ballotResult := v.ballotOf s lanes
  threadsInWarp := lanes.map v.thread
  lastTid := (v.thread last).hwTid

theorem collect_collected {last : Fin 32} {lanes : List (Fin 32)} :
    v.collect lane (v.ballots s lane) (v.collected s last lanes) =
      v.collected s last (lanes ++ [lane]) := by
  have hlane : (v.thread lane).hwTid % 32 = lane.val := by
    show (v.warpId * 32 + lane.val) % 32 = lane.val
    have hlt := lane.isLt
    omega
  unfold collect collected ballotOf
  rw [hlane]
  simp

/-! ### One vote -/

theorem highestActive_eq {active : Fin 32 → Bool} {k : Nat} (hlane : active lane = true)
    (htop : ∀ j, active j = true → j.val < k → j ≤ lane) (hk : lane.val < k) (hle : k ≤ 32) :
    highestActive active k = lane.val := by
  induction k with
  | zero => omega
  | succ k ih =>
    have hlt : k < 32 := hle
    rw [highestActive, dif_pos hlt]
    by_cases hon : active ⟨k, hlt⟩ = true
    · have hle' : k ≤ lane.val := htop ⟨k, hlt⟩ hon (Nat.lt_succ_self k)
      rw [if_pos hon]
      omega
    · rw [if_neg hon]
      have hne : lane ≠ ⟨k, hlt⟩ := by
        rintro rfl
        exact hon hlane
      have hne' : lane.val ≠ k := fun h => hne (Fin.ext h)
      exact ih (fun j hj hjk => htop j hj (by omega)) (by omega) hlt.le

/-- After the first lanes, the vote has collected what they say, or its last lane has ended it. -/
structure Voting (v : Vote) (s : VoteState) (last : Fin 32) (k : Nat) (w : Masked 32 VoteState) :
    Prop where
  mask : ∀ j : Fin 32, k ≤ j.val → w.active j = v.active j
  none : v.voters s k = [] → w.state = s
  some : v.voters s k ≠ [] → last ∉ v.voters s k → w.state.regs = s.regs ∧
    w.state.statics = v.collected s last (v.voters s k)
  ended : last ∈ v.voters s k → w.state.statics.firstInWarp = true ∧
    w.state.regs = v.writeAll (v.collected s last (v.voters s k)) s.regs

theorem hwTid_inj : (v.thread lane).hwTid = (v.thread j).hwTid ↔ lane = j := by
  show v.warpId * 32 + lane.val = v.warpId * 32 + j.val ↔ lane = j
  rw [Nat.add_left_cancel_iff, Fin.ext_iff]

/-- The first lane that votes sets the variables up for itself, and the others find them. -/
theorem Voting.start_eq {last : Fin 32} {k : Nat} {hk : k < 32} {w : Masked 32 VoteState}
    (h : Voting v s last k w) (hclean : s.statics.firstInWarp = true) (hlast : v.Highest last)
    (hle : k ≤ last.val) :
    v.start w.active ⟨k, hk⟩ w.state.statics = v.collected s last (v.voters s k) := by
  have hout : last ∉ v.voters s k := fun hin => absurd ((mem_voters hk.le).mp hin).1 (not_lt.mpr hle)
  unfold start
  by_cases hnone : v.voters s k = []
  · rw [h.none hnone, if_pos hclean, hnone]
    have hhigh : highestActive w.active 32 = last.val := by
      refine highestActive_eq ((h.mask last hle).trans hlast.1) ?_ last.isLt (Nat.le_refl 32)
      intro j hj _
      by_cases hjk : k ≤ j.val
      · rw [h.mask j hjk] at hj
        exact hlast.2 j hj
      · show j.val ≤ last.val
        omega
    have htid : (v.thread ⟨k, hk⟩).hwTid - (v.thread ⟨k, hk⟩).hwTid % 32 + last.val =
        (v.thread last).hwTid := by
      show v.warpId * 32 + k - (v.warpId * 32 + k) % 32 + last.val = v.warpId * 32 + last.val
      omega
    rw [hhigh, htid]
    rfl
  · obtain ⟨-, hstatics⟩ := h.some hnone hout
    rw [hstatics]
    exact if_neg Bool.false_ne_true

theorem Voting.step {last : Fin 32} {k : Nat} {w : Masked 32 VoteState} (h : Voting v s last k w)
    (hclean : s.statics.firstInWarp = true) (hlast : v.Highest last) (hk : k < 32) :
    Voting v s last (k + 1)
      (w.step (fun s lane => !guardTrue v.guard (s.regs (v.thread lane)))
        (fun active lane s => v.voteImpl active lane s) ⟨k, hk⟩) := by
  have hon : w.active ⟨k, hk⟩ = v.active ⟨k, hk⟩ := h.mask _ (Nat.le_refl k)
  have hlater : ∀ j : Fin 32, k + 1 ≤ j.val → w.active j = v.active j :=
    fun j hj => h.mask j (Nat.le_of_succ_le hj)
  cases ha : w.active ⟨k, hk⟩ with
  | false =>
    have he : v.executes s ⟨k, hk⟩ = false := by
      unfold executes
      rw [← hon, ha, Bool.false_and]
    rw [Masked.step_off ha]
    have hsame := voters_skip hk he
    exact ⟨hlater, hsame ▸ h.none, hsame ▸ h.some, hsame ▸ h.ended⟩
  | true =>
    have hle : k ≤ last.val := hlast.2 _ (hon.symm.trans ha)
    have hout : last ∉ v.voters s k :=
      fun hin => absurd ((mem_voters hk.le).mp hin).1 (not_lt.mpr hle)
    have hregs : w.state.regs = s.regs := by
      by_cases hnone : v.voters s k = []
      · rw [h.none hnone]
      · exact (h.some hnone hout).1
    cases hg : guardTrue v.guard (s.regs (v.thread ⟨k, hk⟩)) with
    | false =>
      have he : v.executes s ⟨k, hk⟩ = false := by
        unfold executes
        rw [hg, Bool.and_false]
      rw [Masked.step_skip ha (by rw [hregs, hg]; rfl)]
      have hsame := voters_skip hk he
      refine ⟨fun j hj => ?_, hsame ▸ h.none, hsame ▸ h.some, hsame ▸ h.ended⟩
      have hne : j ≠ ⟨k, hk⟩ := by
        rintro rfl
        exact absurd hj (Nat.not_succ_le_self k)
      show Function.update w.active _ false j = _
      rw [Function.update_of_ne hne]
      exact hlater j hj
    | true =>
      have he : v.executes s ⟨k, hk⟩ = true := by
        unfold executes
        rw [hg, ← hon, ha, Bool.true_and]
      rw [Masked.step_body ha (by rw [hregs, hg]; rfl)]
      have hstatics : v.collect ⟨k, hk⟩ (v.value (w.state.regs (v.thread ⟨k, hk⟩)))
          (v.start w.active ⟨k, hk⟩ w.state.statics) = v.collected s last (v.voters s (k + 1)) := by
        rw [h.start_eq hclean hlast hle, voters_succ hk he, ← collect_collected, hregs]
        rfl
      have hnonempty : v.voters s (k + 1) ≠ [] := by
        rw [voters_succ hk he]
        exact List.append_ne_nil_of_right_ne_nil _ (List.cons_ne_nil _ _)
      have hend : last ∈ v.voters s (k + 1) ↔ (⟨k, hk⟩ : Fin 32) = last := by
        rw [voters_succ hk he, List.mem_append, List.mem_singleton, or_iff_right hout, eq_comm]
      unfold voteImpl
      dsimp only
      rw [hstatics]
      by_cases hwho : (v.thread ⟨k, hk⟩).hwTid = (v.collected s last (v.voters s (k + 1))).lastTid
      · have hthis := hwTid_inj.mp hwho
        rw [if_pos hwho]
        refine ⟨hlater, fun hnil => absurd hnil hnonempty, fun _ hnot => ?_, fun _ => ?_⟩
        · exact absurd (hend.mpr hthis) hnot
        · rw [hregs]
          exact ⟨rfl, rfl⟩
      · have hother : last ∉ v.voters s (k + 1) := fun hin => hwho (hwTid_inj.mpr (hend.mp hin))
        rw [if_neg hwho]
        exact ⟨hlater, fun hnil => absurd hnil hnonempty, fun _ _ => ⟨hregs, rfl⟩,
          fun hin => absurd hin hother⟩

/-- A vote of a warp with a lane that is on. -/
theorem voting_execute {last : Fin 32} (hclean : s.statics.firstInWarp = true)
    (hlast : v.Highest last) : Voting v s last 32
      (Masked.run (fun s lane => !guardTrue v.guard (s.regs (v.thread lane)))
        (fun active lane s => v.voteImpl active lane s) ⟨v.active, s⟩ 32) := by
  refine Masked.run_invariant (Voting v s last) ?_ ?_ (Nat.le_refl 32)
  · exact ⟨fun _ _ => rfl, fun _ => rfl, fun hne => absurd rfl hne,
      fun hin => absurd hin List.not_mem_nil⟩
  · exact fun k hk w h => h.step hclean hlast hk

/-- Without a lane that is on, nothing happens. -/
theorem execute_off (hoff : ∀ lane, v.active lane = false) : v.execute s = s := by
  have hrun : Masked.run (fun s lane => !guardTrue v.guard (s.regs (v.thread lane)))
      (fun active lane s => v.voteImpl active lane s) ⟨v.active, s⟩ 32 = ⟨v.active, s⟩ := by
    refine Masked.run_invariant (fun _ (w : Masked 32 VoteState) => w = ⟨v.active, s⟩) rfl ?_
      (Nat.le_refl 32)
    intro k hk w hw
    rw [hw]
    exact Masked.step_off (hoff ⟨k, hk⟩)
  unfold execute
  rw [hrun]

theorem exists_highest (hon : v.active lane = true) : ∃ last, v.Highest last := by
  obtain ⟨last, hlast, htop⟩ := Finset.exists_max_image
    (Finset.univ.filter fun j => v.active j = true) id ⟨lane, by simp [hon]⟩
  refine ⟨last, (Finset.mem_filter.mp hlast).2, fun j hj => ?_⟩
  exact htop j (Finset.mem_filter.mpr ⟨Finset.mem_univ j, hj⟩)

theorem Highest.unique (h : v.Highest lane) (h' : v.Highest j) : lane = j :=
  le_antisymm (h'.2 lane h.1) (h.2 j h'.1)

/-- Every thread that has voted is written. -/
theorem writeAll_thread {statics : VoteStatics} {regs : WarpThread → ThreadRegs} {t : WarpThread}
    (ht : t ∈ statics.threadsInWarp) : ∃ r, v.writeAll statics regs t = v.writeThread statics r := by
  have hfold : ∀ (ts : List WarpThread) (regs : WarpThread → ThreadRegs),
      (t ∈ ts ∨ ∃ r, regs t = v.writeThread statics r) →
      ∃ r, ts.foldl (fun regs t => Function.update regs t (v.writeThread statics (regs t))) regs t =
        v.writeThread statics r := by
    intro ts
    induction ts with
    | nil =>
      intro regs h
      exact h.resolve_left List.not_mem_nil
    | cons x ts ih =>
      intro regs h
      rw [List.foldl_cons]
      apply ih
      rcases eq_or_ne t x with rfl | hne
      · exact .inr ⟨_, Function.update_self _ _ _⟩
      · rw [Function.update_of_ne hne]
        exact h.imp_left fun hmem => (List.mem_cons.mp hmem).resolve_left hne
  exact hfold _ regs (.inl ht)

/-- What the last lane writes is the result, except for `uni`. -/
theorem holds_writeThread {last : Fin 32} {lanes : List (Fin 32)} {r : ThreadRegs}
    (hlanes : ∀ lane, lane ∈ lanes ↔ v.executes s lane = true) (hmode : v.mode ≠ .uni) :
    v.Holds s (v.writeThread (v.collected s last lanes) r) := by
  have hpred : ∀ value : Bool,
      predTrue ((r.setPred v.dst (predOf value)).preds v.dst) = value := by
    intro value
    show predTrue (Function.update r.preds v.dst (predOf value) v.dst) = value
    rw [Function.update_self, predTrue_predOf]
  unfold Holds writeThread result
  cases hm : v.mode with
  | ballot =>
    intro lane
    show (Function.update r.words v.dst (v.ballotOf s lanes) v.dst).getLsbD lane = _
    rw [Function.update_self, getLsbD_ballotOf, Bool.decide_congr (hlanes lane), Bool.decide_eq_true]
  | any =>
    dsimp only
    rw [hpred]
    show lanes.any (v.ballots s) = _
    rw [Bool.eq_iff_iff, List.any_eq_true, decide_eq_true_iff]
    simp only [hlanes]
  | all =>
    dsimp only
    rw [hpred]
    show lanes.all (v.ballots s) = _
    rw [Bool.eq_iff_iff, List.all_eq_true, decide_eq_true_iff]
    simp only [hlanes]
  | uni => exact absurd hm hmode

/-- The answer of `uni` is the wrong way round. -/
theorem not_holds_uni {last : Fin 32} {lanes : List (Fin 32)} {r : ThreadRegs}
    (hlanes : ∀ lane, lane ∈ lanes ↔ v.executes s lane = true) (hmode : v.mode = .uni)
    (hlane : v.executes s lane = true) :
    ¬ v.Holds s (v.writeThread (v.collected s last lanes) r) := by
  have hin := (hlanes lane).mpr hlane
  unfold Holds writeThread result
  rw [hmode]
  show ¬ predTrue (Function.update r.preds v.dst (predOf (lanes.any (v.ballots s) ^^
    lanes.all (v.ballots s))) v.dst) = _
  rw [Function.update_self, predTrue_predOf, Bool.eq_iff_iff, decide_eq_true_iff]
  simp only [← hlanes]
  cases hany : lanes.any (v.ballots s) with
  | true =>
    obtain ⟨x, hx, hbx⟩ := List.any_eq_true.mp hany
    cases hall : lanes.all (v.ballots s) with
    | true =>
      rw [List.all_eq_true] at hall
      intro hiff
      exact absurd (hiff.mpr fun a b ha hb => (hall a ha).trans (hall b hb).symm) (by decide)
    | false =>
      obtain ⟨y, hy, hby⟩ := List.all_eq_false.mp hall
      intro hiff
      exact hby ((hiff.mp rfl y x hy hx).trans hbx)
  | false =>
    have hnone : ∀ a ∈ lanes, v.ballots s a = false := fun a ha =>
      Bool.eq_false_iff.mpr (List.any_eq_false.mp hany a ha)
    have hall : lanes.all (v.ballots s) = false :=
      List.all_eq_false.mpr ⟨lane, hin, by rw [hnone lane hin]; exact Bool.false_ne_true⟩
    rw [hall]
    intro hiff
    exact absurd (hiff.mpr fun a b ha hb => (hnone a ha).trans (hnone b hb).symm) (by decide)

theorem right_iff (hclean : s.statics.firstInWarp = true) : v.Right s ↔ v.Defined s := by
  by_cases hactive : ∃ lane, v.active lane = true
  · obtain ⟨lane, hon⟩ := hactive
    obtain ⟨last, hlast⟩ := exists_highest hon
    have hvoting := voting_execute hclean hlast
    have hlanes : ∀ lane, lane ∈ v.voters s 32 ↔ v.executes s lane = true := by
      intro lane
      rw [mem_voters (Nat.le_refl 32), and_iff_right lane.isLt]
    by_cases hvotes : v.executes s last = true
    · obtain ⟨hfirst, hregs⟩ := hvoting.ended ((hlanes last).mpr hvotes)
      have hwritten : ∀ lane, v.executes s lane = true → ∃ r,
          (v.execute s).regs (v.thread lane) =
            v.writeThread (v.collected s last (v.voters s 32)) r := by
        intro lane hlane
        unfold execute
        rw [hregs]
        exact writeAll_thread (List.mem_map_of_mem ((hlanes lane).mpr hlane))
      by_cases hmode : v.mode = .uni
      · refine iff_of_false ?_ ?_
        · rintro ⟨hholds, -⟩
          obtain ⟨r, hr⟩ := hwritten last hvotes
          have hlastHolds := hholds last hvotes
          rw [hr] at hlastHolds
          exact not_holds_uni hlanes hmode hvotes hlastHolds
        · rintro (hnobody | ⟨hnot, -⟩)
          · rw [hnobody last] at hvotes
            cases hvotes
          · exact hnot hmode
      · refine iff_of_true ⟨fun lane hlane => ?_, hfirst⟩ (.inr ⟨hmode, last, hlast, hvotes⟩)
        obtain ⟨r, hr⟩ := hwritten lane hlane
        rw [hr]
        exact holds_writeThread hlanes hmode
    · have hout : last ∉ v.voters s 32 := fun hin => hvotes ((hlanes last).mp hin)
      by_cases hnone : v.voters s 32 = []
      · have hnobody : ∀ lane, v.executes s lane = false := by
          intro lane
          rw [← Bool.not_eq_true, ← hlanes, hnone]
          exact List.not_mem_nil
        refine iff_of_true ⟨fun lane hlane => ?_, ?_⟩ (.inl hnobody)
        · rw [hnobody lane] at hlane
          cases hlane
        · unfold execute
          rw [hvoting.none hnone]
          exact hclean
      · refine iff_of_false ?_ ?_
        · rintro ⟨-, hfirst⟩
          unfold execute at hfirst
          rw [(hvoting.some hnone hout).2] at hfirst
          cases hfirst
        · rintro (hnobody | ⟨-, lane, hhigh, hlane⟩)
          · obtain ⟨x, hx⟩ := List.exists_mem_of_ne_nil _ hnone
            rw [hlanes, hnobody x] at hx
            cases hx
          · rw [hhigh.unique hlast] at hlane
            exact hvotes hlane
  · have hoff : ∀ lane, v.active lane = false := by
      intro lane
      rw [← Bool.not_eq_true]
      exact fun hon => hactive ⟨lane, hon⟩
    have hnobody : ∀ lane, v.executes s lane = false := by
      intro lane
      unfold executes
      rw [hoff lane, Bool.false_and]
    refine iff_of_true ⟨fun lane hlane => ?_, ?_⟩ (.inl hnobody)
    · rw [hnobody lane] at hlane
      cases hlane
    · rw [execute_off hoff]
      exact hclean

end Vote

/-! ### Runs of votes -/

theorem votesRight_iff {s : VoteState} {votes : List Vote} (hclean : s.statics.firstInWarp = true) :
    VotesRight s votes ↔ VotesDefined s votes := by
  induction votes generalizing s with
  | nil => exact Iff.rfl
  | cons v rest ih =>
    show v.Right s ∧ _ ↔ v.Defined s ∧ _
    rw [Vote.right_iff hclean]
    refine and_congr_right fun hdefined => ih ?_
    exact ((Vote.right_iff hclean).mpr hdefined).2

/-- Each lane takes the register of the lane below it, in place. -/
def upInPlace : ShflInst := ⟨.up, none, 0, none, .reg 0, .imm 1#32, .imm 0#32⟩

/-- A warp whose register 0 holds the numbers of the lanes. -/
def numberedWarp : Masked 32 (Fin 32 → ThreadRegs) :=
  ⟨fun _ => true, fun lane => ⟨fun _ => laneWord lane, fun _ => 0#4⟩⟩

/-- The predicates of lane 0 are true, those of the other lanes false. -/
def firstTrue (t : WarpThread) : ThreadRegs := ⟨fun _ => 0#32, fun _ => predOf (t.hwTid = 0)⟩

def uniVote : Vote := ⟨0, 0, fun lane => decide (lane.val = 0), .uni, none, 1, 0, false⟩

/-- The highest lane is on, but its guard is false. -/
def guardedVote : Vote := ⟨0, 0, fun lane => decide (lane.val < 2), .all, some ⟨0, false⟩, 1, 0, false⟩

end FlashGpuSim
