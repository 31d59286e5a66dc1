import FlashGpuSim.Scoreboard.Board

/-!
Which instruction owns a register, read off the calls of a run: the youngest one that reserved
it, until it is released or the warp is cleared. The tables of the scoreboard say the same.
-/

namespace FlashGpuSim

open Lib

/-- The warp of a call. -/
def ScoreCall.warp : ScoreCall → Nat
  | .reserve wid _ | .markReady wid _ _ | .release wid _ | .clear wid => wid

/-- A call that takes the register away from the instruction. -/
def ScoreCall.Ends (wid regnum : Nat) (i : ScoreInst) : ScoreCall → Prop
  | .reserve wid' j => wid' = wid ∧ regnum ∈ j.outputs
  | .release wid' j => wid' = wid ∧ j = i
  | .clear wid' => wid' = wid
  | .markReady _ _ _ => False

/-- The instruction reserved the register, and the calls since then did not take it away. -/
def OwnsSince (log : List ScoreCall) (wid regnum : Nat) (i : ScoreInst)
    (since : List ScoreCall) : Prop :=
  (∃ before, log = before ++ .reserve wid i :: since) ∧ regnum ∈ i.outputs ∧
    ∀ call ∈ since, ¬ call.Ends wid regnum i

/-- The instruction is the youngest that reserved the register, and was not released. -/
def Owns (log : List ScoreCall) (wid regnum : Nat) (i : ScoreInst) : Prop :=
  ∃ since, OwnsSince log wid regnum i since

/-- The value of the owner is not forwardable yet. -/
def Waits (log : List ScoreCall) (wid regnum : Nat) (i : ScoreInst) : Prop :=
  ∃ since, OwnsSince log wid regnum i since ∧
    ∀ outputs, .markReady wid i.uid outputs ∈ since → regnum ∉ outputs

variable {log : List ScoreCall} {call : ScoreCall} {wid regnum : Nat} {i j : ScoreInst}

theorem Waits.owns (h : Waits log wid regnum i) : Owns log wid regnum i := by
  obtain ⟨since, hsince, -⟩ := h
  exact ⟨since, hsince⟩

theorem Owns.output (h : Owns log wid regnum i) : regnum ∈ i.outputs := by
  obtain ⟨since, -, hout, -⟩ := h
  exact hout

theorem Owns.mem (h : Owns log wid regnum i) : .reserve wid i ∈ log := by
  obtain ⟨since, ⟨before, rfl⟩, -⟩ := h
  simp

theorem ownsSince_concat (since : List ScoreCall) :
    OwnsSince (log ++ [call]) wid regnum i since ↔
      (since = [] ∧ call = .reserve wid i ∧ regnum ∈ i.outputs) ∨
        ∃ earlier, since = earlier ++ [call] ∧ OwnsSince log wid regnum i earlier ∧
          ¬ call.Ends wid regnum i := by
  unfold OwnsSince
  constructor
  · rintro ⟨⟨before, hlog⟩, hout, hkeep⟩
    induction since using List.reverseRecOn with
    | nil =>
      obtain ⟨-, hcall⟩ := List.append_inj' hlog rfl
      exact .inl ⟨rfl, List.singleton_inj.mp hcall, hout⟩
    | append_singleton earlier last _ =>
      have hsplit : log ++ [call] = (before ++ .reserve wid i :: earlier) ++ [last] := by
        rw [hlog]
        simp
      obtain ⟨hlog', hcall⟩ := List.append_inj' hsplit rfl
      cases List.singleton_inj.mp hcall
      refine .inr ⟨earlier, rfl, ⟨⟨before, hlog'⟩, hout, fun e he => ?_⟩, ?_⟩
      · exact hkeep e (List.mem_append_left _ he)
      · exact hkeep call (by simp)
  · rintro (⟨rfl, rfl, hout⟩ | ⟨earlier, rfl, ⟨⟨before, rfl⟩, hout, hkeep⟩, hcall⟩)
    · exact ⟨⟨log, rfl⟩, hout, fun e he => by cases he⟩
    · refine ⟨⟨before, by simp⟩, hout, fun e he => ?_⟩
      rcases List.mem_append.mp he with he | he
      · exact hkeep e he
      · rw [List.mem_singleton.mp he]
        exact hcall

/-- The owner after one more call. -/
theorem owns_concat : Owns (log ++ [call]) wid regnum i ↔
    (call = .reserve wid i ∧ regnum ∈ i.outputs) ∨
      (Owns log wid regnum i ∧ ¬ call.Ends wid regnum i) := by
  unfold Owns
  simp only [ownsSince_concat]
  constructor
  · rintro ⟨since, ⟨-, hnew⟩ | ⟨earlier, -, hold, hkeep⟩⟩
    · exact .inl hnew
    · exact .inr ⟨⟨earlier, hold⟩, hkeep⟩
  · rintro (hnew | ⟨⟨earlier, hold⟩, hkeep⟩)
    · exact ⟨[], .inl ⟨rfl, hnew⟩⟩
    · exact ⟨earlier ++ [call], .inr ⟨earlier, rfl, hold, hkeep⟩⟩

theorem waits_concat : Waits (log ++ [call]) wid regnum i ↔
    (call = .reserve wid i ∧ regnum ∈ i.outputs) ∨
      (Waits log wid regnum i ∧ ¬ call.Ends wid regnum i ∧
        ∀ outputs, call = .markReady wid i.uid outputs → regnum ∉ outputs) := by
  unfold Waits
  simp only [ownsSince_concat]
  constructor
  · rintro ⟨since, ⟨-, hnew⟩ | ⟨earlier, rfl, hold, hkeep⟩, hwait⟩
    · exact .inl hnew
    · refine .inr ⟨⟨earlier, hold, fun outputs hin => ?_⟩, hkeep, fun outputs heq => ?_⟩
      · exact hwait outputs (List.mem_append_left _ hin)
      · exact hwait outputs (by simp [heq])
  · rintro (hnew | ⟨⟨earlier, hold, hwait⟩, hkeep, hcall⟩)
    · exact ⟨[], .inl ⟨rfl, hnew⟩, fun _ hin => by cases hin⟩
    · refine ⟨earlier ++ [call], .inr ⟨earlier, rfl, hold, hkeep⟩, fun outputs hin => ?_⟩
      rcases List.mem_append.mp hin with hin | hin
      · exact hwait outputs hin
      · exact hcall outputs (List.mem_singleton.mp hin).symm

/-- A register has one owner. -/
theorem Owns.unique (hi : Owns log wid regnum i) (hj : Owns log wid regnum j) : i = j := by
  induction log using List.reverseRecOn with
  | nil =>
    obtain ⟨since, ⟨before, hlog⟩, -⟩ := hi
    simp at hlog
  | append_singleton log call ih =>
    rw [owns_concat] at hi hj
    rcases hi with ⟨rfl, hout⟩ | ⟨hi, hkeepi⟩
    · rcases hj with ⟨hcall, -⟩ | ⟨-, hkeep⟩
      · cases hcall
        rfl
      · exact absurd ⟨rfl, hout⟩ hkeep
    · rcases hj with ⟨rfl, hout⟩ | ⟨hj, -⟩
      · exact absurd ⟨rfl, hout⟩ hkeepi
      · exact ih hi hj

namespace WarpBoard

variable {b b' : WarpBoard} {r uid : Nat}

/-- What the tables say of one register. -/
structure View where
  pending : Bool
  owner : Option Nat
  ready : Bool
  long : Bool
  producer : Option RegProducer
  deriving DecidableEq

def view (b : WarpBoard) (r : Nat) : View where
  pending := decide (r ∈ b.regTable)
  owner := b.regOwner r
  ready := decide (r ∈ b.readyRegs)
  long := decide (r ∈ b.longopregs)
  producer := b.regProducer r

/-- A register that no table holds. -/
def View.free : View := ⟨false, none, false, false, none⟩

theorem reserveRegister_view (hok : b.reserveRegister regnum uid = .ok b') (prod : RegProducer)
    (r : Nat) : (b'.setProducer regnum prod).view r =
      if r = regnum then ⟨true, some uid, false, (b.view r).long, some prod⟩ else b.view r := by
  obtain ⟨_, -, hok⟩ := bind_eq_ok hok
  cases hok
  rcases eq_or_ne r regnum with rfl | hne
  · simp [view, setProducer]
    rfl
  · simp [view, setProducer, hne]
    rfl

/-- The loop over the outputs takes every register that is still to be seen. -/
theorem reserveOutputs_view {prod : RegProducer} {todo seen : List Nat} :
    Outcome (reserveOutputs uid prod todo seen b)
      (fun b' => ∀ r, b'.view r = if r ∈ todo.filter (0 < ·) ∧ r ∉ seen then
        ⟨true, some uid, false, (b.view r).long, some prod⟩ else b.view r)
      (fun _ => ∃ r ∈ todo.filter (0 < ·), r ∉ seen ∧ b.blocks r = true) := by
  induction todo generalizing b seen with
  | nil => exact fun r => by simp
  | cons x rest ih =>
    unfold reserveOutputs
    split
    · rename_i hnew
      apply outcome_bind
      have hin : x ∈ (x :: rest).filter (0 < ·) := by simp [hnew.1]
      cases hreserve : b.reserveRegister x uid with
      | error e =>
        refine ⟨x, hin, hnew.2, ?_⟩
        unfold reserveRegister at hreserve
        unfold blocks
        by_contra hfree
        simp only [Bool.and_eq_true, decide_eq_true_eq, not_and, not_not] at hfree
        rw [require_pass (decide_eq_true (by tauto))] at hreserve
        cases hreserve
      | ok b₁ =>
        have hview := reserveRegister_view hreserve prod
        refine (@ih (b₁.setProducer x prod) (x :: seen)).mono ?_ ?_
        · intro b' hb' r
          rw [hb' r, hview r]
          rcases eq_or_ne r x with rfl | hne
          · simp [hnew]
          · simp [hne, hnew.1]
        · rintro _ ⟨r, hr, hseen, hblocks⟩
          have hne : r ≠ x := fun heq => hseen (heq ▸ List.mem_cons_self)
          have hsame := hview r
          rw [if_neg hne] at hsame
          refine ⟨r, ?_, fun hin => hseen (List.mem_cons_of_mem _ hin), ?_⟩
          · simp only [List.mem_filter, List.mem_cons] at hr ⊢
            exact ⟨.inr hr.1, hr.2⟩
          · have hpending := congrArg View.pending hsame
            have hready := congrArg View.ready hsame
            simp only [view] at hpending hready
            unfold blocks at hblocks ⊢
            simp only [decide_eq_decide] at hpending hready
            simp only [hpending, hready] at hblocks
            exact hblocks
    · rename_i hold
      refine ih.mono ?_ ?_
      · intro b' hb' r
        rw [hb' r]
        rcases eq_or_ne r x with rfl | hne
        · by_cases hpos : 0 < r
          · have hseen : r ∈ seen := by
              by_contra hnot
              exact hold ⟨hpos, hnot⟩
            simp [hseen]
          · simp [hpos]
        · have hmem : r ∈ (x :: rest).filter (0 < ·) ↔ r ∈ rest.filter (0 < ·) := by
            simp only [List.mem_filter, List.mem_cons, hne, false_or]
          simp only [hmem]
      · rintro _ ⟨r, hr, hseen, hblocks⟩
        refine ⟨r, ?_, hseen, hblocks⟩
        simp only [List.mem_filter, List.mem_cons] at hr ⊢
        exact ⟨.inr hr.1, hr.2⟩

theorem reserveRegisters_view :
    Outcome (b.reserveRegisters i)
      (fun b' => ∀ r, b'.view r = if r ∈ i.outputs then
        ⟨true, some i.uid, false, (b.view r).long || i.longLoad, some i.producer⟩ else b.view r)
      (fun _ => ∃ r ∈ i.outputs, b.blocks r = true) := by
  unfold reserveRegisters
  apply outcome_bind
  refine reserveOutputs_view.mono ?_ ?_
  · intro b' hb'
    apply outcome_pure.mpr
    intro r
    have hr := hb' r
    simp only [List.not_mem_nil, not_false_eq_true, and_true] at hr
    unfold ScoreInst.outputs
    cases i.longLoad with
    | false =>
      rw [if_neg Bool.false_ne_true, hr]
      simp
    | true =>
      rw [if_pos rfl]
      have hview : ∀ l : Finset Nat, ({ b' with longopregs := b'.longopregs ∪ l } : WarpBoard).view r =
          { b'.view r with long := (b'.view r).long || decide (r ∈ l) } := by
        intro l
        simp [view]
      rw [hview, hr]
      by_cases hin : r ∈ (i.out ++ i.extraOut).filter (0 < ·)
      · rw [if_pos hin, if_pos hin, decide_eq_true (List.mem_toFinset.mpr hin)]
      · rw [if_neg hin, if_neg hin, decide_eq_false fun h => hin (List.mem_toFinset.mp h),
          Bool.or_false]
  · rintro _ ⟨r, hr, -, hblocks⟩
    exact ⟨r, hr, hblocks⟩

/-- A loop over registers that touches one register at a time. -/
theorem foldl_view {f : WarpBoard → Nat → WarpBoard} {p : Nat → View → Prop}
    [∀ r v, Decidable (p r v)] {g : View → View}
    (hf : ∀ b x r, (f b x).view r = if r = x ∧ p r (b.view r) then g (b.view r) else b.view r)
    (hidem : ∀ r v, p r (g v) → g (g v) = g v) (todo : List Nat) (b : WarpBoard) (r : Nat) :
    (todo.foldl f b).view r =
      if r ∈ todo ∧ p r (b.view r) then g (b.view r) else b.view r := by
  induction todo generalizing b with
  | nil => simp
  | cons x rest ih =>
    rw [List.foldl_cons, ih, hf]
    by_cases hhere : r = x ∧ p r (b.view r)
    · have hin : r ∈ x :: rest ∧ p r (b.view r) := ⟨hhere.1 ▸ List.mem_cons_self, hhere.2⟩
      rw [if_pos hhere, if_pos hin]
      split
      · rename_i hagain
        exact hidem r _ hagain.2
      · rfl
    · rw [if_neg hhere]
      have hmem : (r ∈ rest ∧ p r (b.view r)) ↔ (r ∈ x :: rest ∧ p r (b.view r)) := by
        rw [List.mem_cons]
        tauto
      simp only [hmem]

theorem releaseRegisters_view (b : WarpBoard) (i : ScoreInst) (r : Nat) :
    (b.releaseRegisters i).view r =
      if r ∈ i.outputs ∧ (b.view r).owner = some i.uid ∧ (b.view r).pending = true then
        View.free else b.view r := by
  unfold releaseRegisters
  refine foldl_view (p := fun _ v => v.owner = some i.uid ∧ v.pending = true)
    (g := fun _ => View.free) ?_ (fun _ _ _ => rfl) i.outputs b r
  intro b x r
  unfold releaseRegisterIfOwner releaseRegister
  rcases eq_or_ne r x with rfl | hne
  · by_cases howner : b.regOwner r = some i.uid
    · by_cases hpending : r ∈ b.regTable
      · simp [view, howner, hpending, View.free]
      · simp [view, howner, hpending]
    · simp [view, howner]
  · have hno : ¬ (r = x ∧ (b.view r).owner = some i.uid ∧ (b.view r).pending = true) :=
      fun h => hne h.1
    rw [if_neg hno]
    split
    · split
      · simp only [view, Finset.mem_erase, ne_eq, hne, not_false_eq_true, true_and,
          Function.update_of_ne hne]
      · rfl
    · rfl

theorem markRegistersReady_view (b : WarpBoard) (uid : Nat) (outputs : List Nat) (r : Nat) :
    (b.markRegistersReady uid outputs).view r =
      if r ∈ outputs ∧ r ≠ 0 ∧ (b.view r).owner = some uid then
        { b.view r with ready := true } else b.view r := by
  unfold markRegistersReady
  refine foldl_view (p := fun r v => r ≠ 0 ∧ v.owner = some uid)
    (g := fun v => { v with ready := true }) ?_ (fun _ _ _ => rfl) outputs b r
  intro b x r
  rcases eq_or_ne r x with rfl | hne
  · by_cases howner : r ≠ 0 ∧ b.regOwner r = some uid
    · rw [if_pos howner, if_pos ⟨rfl, howner⟩]
      simp [view]
    · rw [if_neg howner, if_neg fun h => howner h.2]
  · have hno : ¬ (r = x ∧ r ≠ 0 ∧ (b.view r).owner = some uid) := fun h => hne h.1
    rw [if_neg hno]
    split
    · simp only [view, Finset.mem_insert, hne, false_or]
    · rfl

theorem clear_view (b : WarpBoard) (r : Nat) :
    b.clear.view r = { View.free with long := (b.view r).long } := by
  simp [view, clear, View.free]
  rfl

end WarpBoard

open WarpBoard (View)

/-- The tables of a register follow its owner. -/
inductive Agrees (log : List ScoreCall) (wid regnum : Nat) : View → Prop
  | free {long : Bool} : (∀ i, ¬ Owns log wid regnum i) →
      Agrees log wid regnum ⟨false, none, false, long, none⟩
  | owned {i : ScoreInst} {ready long : Bool} : Owns log wid regnum i →
      (ready = true ↔ ¬ Waits log wid regnum i) →
      Agrees log wid regnum ⟨true, some i.uid, ready, long, some i.producer⟩

/-- The long-latency table follows the owner. -/
def LongAgrees (log : List ScoreCall) (wid regnum : Nat) (v : View) : Prop :=
  v.long = true ↔ ∃ i, Owns log wid regnum i ∧ i.longLoad = true

variable {v : View}

/-- The tables name the owner. -/
theorem Agrees.owner_eq (h : Agrees log wid regnum v) (hi : Owns log wid regnum i) :
    v.owner = some i.uid ∧ v.pending = true := by
  cases h with
  | free hnone => exact absurd hi (hnone i)
  | owned howns =>
    rw [howns.unique hi]
    exact ⟨rfl, rfl⟩

theorem owns_keep (hnew : ∀ i, call = .reserve wid i → regnum ∉ i.outputs)
    (hends : ∀ i, Owns log wid regnum i → ¬ call.Ends wid regnum i) (i : ScoreInst) :
    Owns (log ++ [call]) wid regnum i ↔ Owns log wid regnum i := by
  rw [owns_concat]
  constructor
  · rintro (⟨hcall, hout⟩ | ⟨hold, -⟩)
    · exact absurd hout (hnew i hcall)
    · exact hold
  · exact fun hold => .inr ⟨hold, hends i hold⟩

/-- A call that neither reserves nor ends the ownership of a register, and does not mark it,
leaves it as it is. -/
theorem Agrees.keep (h : Agrees log wid regnum v)
    (hnew : ∀ i, call = .reserve wid i → regnum ∉ i.outputs)
    (hends : ∀ i, Owns log wid regnum i → ¬ call.Ends wid regnum i)
    (hmark : ∀ i outputs, Owns log wid regnum i → call = .markReady wid i.uid outputs →
      regnum ∉ outputs) : Agrees (log ++ [call]) wid regnum v := by
  cases h with
  | free hnone => exact .free fun i => by rw [owns_keep hnew hends]; exact hnone i
  | @owned i ready long hold hready =>
    refine .owned ((owns_keep hnew hends i).mpr hold) ?_
    rw [hready, waits_concat]
    constructor
    · rintro hforward (⟨hcall, hout⟩ | ⟨hwait, -⟩)
      · exact hnew i hcall hout
      · exact hforward hwait
    · exact fun hforward hwait => hforward (.inr ⟨hwait, hends i hold, fun outputs heq =>
        hmark i outputs hold heq⟩)

theorem LongAgrees.keep (h : LongAgrees log wid regnum v)
    (hnew : ∀ i, call = .reserve wid i → regnum ∉ i.outputs)
    (hends : ∀ i, Owns log wid regnum i → ¬ call.Ends wid regnum i) :
    LongAgrees (log ++ [call]) wid regnum v := by
  unfold LongAgrees at h ⊢
  rw [h]
  simp only [owns_keep hnew hends]

/-- The register that an instruction has just reserved. -/
theorem owns_reserved (log : List ScoreCall) (wid : Nat) (hout : regnum ∈ i.outputs) :
    Owns (log ++ [ScoreCall.reserve wid i]) wid regnum i ∧ Waits (log ++ [ScoreCall.reserve wid i]) wid regnum i :=
  ⟨owns_concat.mpr (.inl ⟨rfl, hout⟩), waits_concat.mpr (.inl ⟨rfl, hout⟩)⟩

namespace Scoreboard

variable {s t : Scoreboard}

/-- The tables of every register follow its owner. -/
def Sound (s : Scoreboard) : Prop := ∀ wid r, Agrees s.log wid r ((s.warps wid).view r)

def LongSound (s : Scoreboard) : Prop := ∀ wid r, LongAgrees s.log wid r ((s.warps wid).view r)

theorem sound_init : Sound {} := by
  intro wid r
  apply Agrees.free
  rintro i ⟨since, ⟨before, hlog⟩, -⟩
  simp at hlog

theorem longSound_init : LongSound {} := by
  intro wid r
  constructor
  · intro hlong
    simp [WarpBoard.view] at hlong
  · rintro ⟨i, ⟨since, ⟨before, hlog⟩, -⟩, -⟩
    simp at hlog

theorem mem_reserved : i ∈ s.reserved ↔ ∃ wid, .reserve wid i ∈ s.log := by
  unfold reserved
  rw [List.mem_filterMap]
  constructor
  · rintro ⟨call, hcall, heq⟩
    cases call with
    | reserve wid j =>
      cases heq
      exact ⟨wid, hcall⟩
    | _ => cases heq
  · rintro ⟨wid, hcall⟩
    exact ⟨_, hcall, rfl⟩

/-- A call changes the tables of its warp. -/
theorem step_frame (hok : s.step call = .ok t) :
    t.log = s.log ++ [call] ∧ ∀ w ≠ call.warp, t.warps w = s.warps w := by
  cases call with
  | reserve w i =>
    obtain ⟨b, -, hok⟩ := bind_eq_ok hok
    cases hok
    exact ⟨rfl, fun w hw => Function.update_of_ne hw _ _⟩
  | markReady w uid outputs =>
    cases hok
    exact ⟨rfl, fun w hw => Function.update_of_ne hw _ _⟩
  | release w i =>
    cases hok
    exact ⟨rfl, fun w hw => Function.update_of_ne hw _ _⟩
  | clear w =>
    cases hok
    exact ⟨rfl, fun w hw => Function.update_of_ne hw _ _⟩

/-- Nothing of a warp changes with the calls of the others. -/
theorem other_warp {w r : Nat} (hw : w ≠ call.warp) :
    (∀ i, call = .reserve w i → r ∉ i.outputs) ∧ (∀ i, ¬ call.Ends w r i) ∧
      ∀ uid outputs, call ≠ .markReady w uid outputs := by
  refine ⟨?_, ?_, ?_⟩
  · rintro i rfl
    exact absurd rfl hw
  · intro i hends
    apply hw
    cases call with
    | reserve w' j => exact hends.1.symm
    | markReady w' uid outputs => exact absurd hends id
    | release w' j => exact hends.1.symm
    | clear w' => exact hends.symm
  · rintro uid outputs rfl
    exact hw rfl

/-- What a call does to the tables of a register of its warp. -/
theorem step_view (hok : s.step call = .ok t) (r : Nat) :
    (t.warps call.warp).view r = match call with
      | .reserve wid i => if r ∈ i.outputs then
          ⟨true, some i.uid, false, ((s.warps wid).view r).long || i.longLoad, some i.producer⟩
        else (s.warps wid).view r
      | .markReady wid uid outputs =>
        if r ∈ outputs ∧ r ≠ 0 ∧ ((s.warps wid).view r).owner = some uid then
          { (s.warps wid).view r with ready := true } else (s.warps wid).view r
      | .release wid i =>
        if r ∈ i.outputs ∧ ((s.warps wid).view r).owner = some i.uid ∧
            ((s.warps wid).view r).pending = true then View.free else (s.warps wid).view r
      | .clear wid => { View.free with long := ((s.warps wid).view r).long } := by
  cases call with
  | reserve w i =>
    obtain ⟨b, hb, hok⟩ := bind_eq_ok hok
    cases hok
    have hview := WarpBoard.reserveRegisters_view.of_ok hb r
    simpa [setWarp, ScoreCall.warp] using hview
  | markReady w uid outputs =>
    cases hok
    simpa [setWarp, ScoreCall.warp] using
      WarpBoard.markRegistersReady_view (s.warps w) uid outputs r
  | release w i =>
    cases hok
    simpa [setWarp, ScoreCall.warp] using WarpBoard.releaseRegisters_view (s.warps w) i r
  | clear w =>
    cases hok
    simpa [setWarp, ScoreCall.warp] using WarpBoard.clear_view (s.warps w) r

/-- No owner has the uid of a released instruction other than itself. -/
theorem Allowed.released {w r : Nat} (h : s.Allowed (.release w i)) (hj : Owns s.log w r j)
    (huid : j.uid = i.uid) : j = i := h j (mem_reserved.mpr ⟨w, hj.mem⟩) huid

/-- Every call keeps the tables and the owners in agreement. -/
theorem Sound.step (h : s.Sound) (hallowed : s.Allowed call) (hok : s.step call = .ok t) :
    t.Sound := by
  obtain ⟨hlog, hother⟩ := step_frame hok
  intro w r
  rw [hlog]
  rcases eq_or_ne w call.warp with rfl | hw
  · have hview := step_view hok r
    have hreg := h call.warp r
    rw [hview]
    cases call with
    | reserve w i =>
      dsimp only
      split
      · rename_i hout
        obtain ⟨howns, hwaits⟩ := owns_reserved s.log w hout
        exact .owned howns ⟨fun hfalse => (by cases hfalse), fun hforward => absurd hwaits hforward⟩
      · rename_i hout
        refine hreg.keep (fun j heq => ?_) (fun j _ hends => hout hends.2)
          fun _ _ _ heq => by cases heq
        cases heq
        exact hout
    | markReady w uid outputs =>
      dsimp only [ScoreCall.warp] at hreg ⊢
      have hnew : ∀ j, ScoreCall.markReady w uid outputs = .reserve w j → r ∉ j.outputs :=
        fun j heq => by cases heq
      split
      · rename_i hmark
        cases hv : (s.warps w).view r with
        | mk pending owner ready long producer =>
          rw [hv] at hreg hmark
          cases hreg with
          | free => exact absurd hmark.2.2 (by simp)
          | @owned i _ _ howns hready =>
            have huid : i.uid = uid := Option.some.inj hmark.2.2
            refine .owned ((owns_keep hnew (fun _ _ hends => hends) i).mpr howns) ?_
            rw [waits_concat]
            refine ⟨fun _ => ?_, fun _ => rfl⟩
            rintro (⟨heq, -⟩ | ⟨-, -, hcall⟩)
            · cases heq
            · exact hcall outputs (by rw [huid]) hmark.1
      · rename_i hmark
        refine hreg.keep hnew (fun _ _ hends => hends) fun j outputs' hj heq hin => hmark ?_
        cases heq
        refine ⟨hin, ?_, ?_⟩
        · have hpos := (List.mem_filter.mp hj.output).2
          simp only [decide_eq_true_eq] at hpos
          omega
        · exact (hreg.owner_eq hj).1
    | release w i =>
      dsimp only [ScoreCall.warp] at hreg ⊢
      have hnew : ∀ j, ScoreCall.release w i = .reserve w j → r ∉ j.outputs :=
        fun j heq => by cases heq
      split
      · rename_i hrel
        apply Agrees.free
        intro j hj
        rw [owns_concat] at hj
        rcases hj with ⟨heq, -⟩ | ⟨hj, hkeep⟩
        · cases heq
        · apply hkeep
          refine ⟨rfl, (hallowed.released hj ?_).symm⟩
          exact Option.some.inj ((hreg.owner_eq hj).1.symm.trans hrel.2.1)
      · rename_i hrel
        refine hreg.keep hnew (fun j hj hends => hrel ?_) fun _ _ _ heq => by cases heq
        obtain ⟨-, rfl⟩ := hends
        exact ⟨hj.output, hreg.owner_eq hj⟩
    | clear w =>
      apply Agrees.free
      intro j hj
      rw [owns_concat] at hj
      rcases hj with ⟨heq, -⟩ | ⟨-, hkeep⟩
      · cases heq
      · exact hkeep rfl
  · obtain ⟨hnew, hends, hmark⟩ := other_warp (r := r) hw
    rw [hother w hw]
    exact (h w r).keep hnew (fun j _ => hends j) fun j outputs _ heq =>
      absurd heq (hmark j.uid outputs)

/-- Every output of an instruction is one of the first `outcount` entries of `out`, and every
input one of the first `incount` entries of `input`. -/
def Packed (i : ScoreInst) : Prop :=
  (∀ r ∈ i.out.drop i.outcount, r = 0) ∧ ∀ r ∈ i.input.drop i.incount, r = 0

instance (i : ScoreInst) : Decidable (Packed i) := inferInstanceAs (Decidable (_ ∧ _))

/-- Outputs and inputs are packed, a register that is marked as long is only taken over by a
load that takes long, and a warp is cleared when none of its registers is marked. -/
def Meets (s : Scoreboard) : ScoreCall → Prop
  | .reserve wid i => Packed i ∧
      (i.longLoad = true ∨ ∀ r ∈ i.outputs, r ∉ (s.warps wid).longopregs)
  | .clear wid => (s.warps wid).longopregs = ∅
  | .markReady _ _ _ => True
  | .release _ _ => True

instance (s : Scoreboard) (call : ScoreCall) : Decidable (s.Meets call) :=
  match call with
  | .reserve _ _ => inferInstanceAs (Decidable (_ ∧ _))
  | .clear _ => inferInstanceAs (Decidable (_ = _))
  | .markReady _ _ _ => inferInstanceAs (Decidable True)
  | .release _ _ => inferInstanceAs (Decidable True)

/-- A call under the condition keeps the long-latency table as well. -/
theorem LongSound.step (hl : s.LongSound) (h : s.Sound) (hallowed : s.Allowed call)
    (hmeets : s.Meets call) (hok : s.step call = .ok t) : t.LongSound := by
  obtain ⟨hlog, hother⟩ := step_frame hok
  intro w r
  rw [hlog]
  rcases eq_or_ne w call.warp with rfl | hw
  · have hview := step_view hok r
    have hreg := h call.warp r
    have hlong := hl call.warp r
    rw [hview]
    cases call with
    | reserve w i =>
      dsimp only
      split
      · rename_i hout
        have howns := (owns_reserved s.log w hout).1
        have hfresh : i.longLoad = true ∨ ((s.warps w).view r).long = false := by
          refine hmeets.2.imp_right fun hnot => ?_
          simp [WarpBoard.view, hnot r hout]
        unfold LongAgrees
        constructor
        · intro hmark
          refine ⟨i, howns, ?_⟩
          rcases hfresh with hload | hno
          · exact hload
          · simpa [hno] using hmark
        · rintro ⟨j, hj, hload⟩
          cases howns.unique hj
          simp [hload]
      · rename_i hout
        refine hlong.keep (fun j heq => ?_) fun j _ hends => hout hends.2
        cases heq
        exact hout
    | markReady w uid outputs =>
      have hkeep : LongAgrees (s.log ++ [ScoreCall.markReady w uid outputs]) w r
          ((s.warps w).view r) := hlong.keep (fun j heq => by cases heq) fun _ _ hends => hends
      dsimp only [ScoreCall.warp]
      split
      · exact hkeep
      · exact hkeep
    | release w i =>
      dsimp only [ScoreCall.warp] at hreg hlong ⊢
      split
      · rename_i hrel
        constructor
        · intro hfalse
          cases hfalse
        · rintro ⟨j, hj, -⟩
          rw [owns_concat] at hj
          rcases hj with ⟨heq, -⟩ | ⟨hj, hkeep⟩
          · cases heq
          · refine absurd ⟨rfl, (hallowed.released hj ?_).symm⟩ hkeep
            exact Option.some.inj ((hreg.owner_eq hj).1.symm.trans hrel.2.1)
      · rename_i hrel
        refine hlong.keep (fun j heq => by cases heq) fun j hj hends => hrel ?_
        obtain ⟨-, rfl⟩ := hends
        exact ⟨hj.output, hreg.owner_eq hj⟩
    | clear w =>
      have hempty : (s.warps w).longopregs = ∅ := hmeets
      constructor
      · intro hmark
        simp [WarpBoard.view, hempty] at hmark
      · rintro ⟨j, hj, -⟩
        rw [owns_concat] at hj
        rcases hj with ⟨heq, -⟩ | ⟨-, hkeep⟩
        · cases heq
        · exact absurd rfl hkeep
  · obtain ⟨hnew, hends, -⟩ := other_warp (r := r) hw
    rw [hother w hw]
    exact (hl w r).keep hnew fun j _ => hends j

/-- The tables and the owners agree in every run, under the condition or not. -/
theorem sound_of_reaches (hs : Reaches step Allowed {} s) : s.Sound :=
  hs.invariant Sound sound_init fun _ _ _ h hallowed hok => h.step hallowed hok

/-- A register blocks an instruction as long as it waits for its owner. -/
theorem Sound.blocks_iff (h : s.Sound) {w r : Nat} :
    (s.warps w).blocks r = true ↔ ∃ j, Waits s.log w r j := by
  have hreg := h w r
  have hblocks : (s.warps w).blocks r = (((s.warps w).view r).pending &&
      !((s.warps w).view r).ready) := by
    simp [WarpBoard.blocks, WarpBoard.view]
  rw [hblocks]
  generalize (s.warps w).view r = v at hreg
  cases hreg with
  | free hnone => simpa using fun j hj => hnone j hj.owns
  | @owned i ready long howns hready =>
    cases ready with
    | false =>
      have hwaits : Waits s.log w r i := by
        by_contra hnot
        cases hready.mpr hnot
      exact ⟨fun _ => ⟨i, hwaits⟩, fun _ => rfl⟩
    | true =>
      have hnot := hready.mp rfl
      constructor
      · intro hfalse
        cases hfalse
      · rintro ⟨j, hj⟩
        rw [howns.unique hj.owns] at hnot
        exact absurd hj hnot

/-- The input, output, extra, predicate and address registers. -/
def registers (i : ScoreInst) : List Nat :=
  i.out ++ i.input ++ i.extraOut ++ i.extraIn ++ [i.pred, i.ar1, i.ar2]

theorem Packed.mem_instRegs (h : Packed i) {r : Nat} (hr : r ∈ registers i) (hpos : 0 < r) :
    r ∈ i.instRegs := by
  have hout : r ∈ i.out → r ∈ i.out.take i.outcount := by
    intro hin
    rw [← List.take_append_drop i.outcount i.out] at hin
    refine (List.mem_append.mp hin).resolve_right fun hdrop => ?_
    have hzero := h.1 r hdrop
    omega
  have hinput : r ∈ i.input → r ∈ i.input.take i.incount := by
    intro hin
    rw [← List.take_append_drop i.incount i.input] at hin
    refine (List.mem_append.mp hin).resolve_right fun hdrop => ?_
    have hzero := h.2 r hdrop
    omega
  unfold registers at hr
  unfold ScoreInst.instRegs
  simp only [List.mem_append, List.mem_filter] at hr ⊢
  rcases hr with (((hr | hr) | hr) | hr) | hr
  · exact .inl (.inl (.inl (.inl (hout hr))))
  · exact .inl (.inl (.inl (.inr (hinput hr))))
  · exact .inl (.inl (.inr hr))
  · exact .inl (.inr hr)
  · exact .inr ⟨hr, decide_eq_true hpos⟩

theorem mem_registers {r : Nat} (hr : r ∈ i.instRegs) : r ∈ registers i := by
  unfold ScoreInst.instRegs at hr
  unfold registers
  simp only [List.mem_append, List.mem_filter] at hr ⊢
  rcases hr with (((hr | hr) | hr) | hr) | hr
  · exact .inl (.inl (.inl (.inl (List.mem_of_mem_take hr))))
  · exact .inl (.inl (.inl (.inr (List.mem_of_mem_take hr))))
  · exact .inl (.inl (.inr hr))
  · exact .inl (.inr hr)
  · exact .inr hr.1

theorem mem_outputs {r : Nat} (hr : r ∈ i.outputs) : r ∈ registers i ∧ 0 < r := by
  obtain ⟨hin, hpos⟩ := List.mem_filter.mp hr
  refine ⟨?_, of_decide_eq_true hpos⟩
  unfold registers
  simp only [List.mem_append] at hin ⊢
  exact hin.elim (fun h => .inl (.inl (.inl (.inl h)))) fun h => .inl (.inl (.inr h))

/-- `checkCollision` on an instruction whose registers it sees. -/
theorem Sound.checkCollision_iff (h : s.Sound) (hi : Packed i) {w : Nat} :
    (s.warps w).checkCollision i = true ↔
      ∃ r ∈ registers i, ∃ j, Waits s.log w r j := by
  unfold WarpBoard.checkCollision
  rw [List.any_eq_true]
  constructor
  · rintro ⟨r, hr, hblocks⟩
    exact ⟨r, mem_registers hr, h.blocks_iff.mp hblocks⟩
  · rintro ⟨r, hr, j, hj⟩
    exact ⟨r, hi.mem_instRegs hr (mem_outputs hj.owns.output).2, h.blocks_iff.mpr ⟨j, hj⟩⟩

/-- A guarded reservation of an instruction whose outputs `checkCollision` sees does not
abort. -/
theorem exists_step (hallowed : s.Allowed call) (hmeets : s.Meets call) :
    ∃ t, s.step call = .ok t := by
  cases call with
  | reserve w i =>
    have hview := WarpBoard.reserveRegisters_view (b := s.warps w) (i := i)
    cases hok : (s.warps w).reserveRegisters i with
    | ok b =>
      refine ⟨s.setWarp (.reserve w i) w b, ?_⟩
      unfold step
      dsimp only
      rw [hok]
      rfl
    | error e =>
      rw [hok] at hview
      obtain ⟨r, hr, hblocks⟩ := hview
      obtain ⟨hin, hpos⟩ := mem_outputs hr
      have hcollide : (s.warps w).checkCollision i = true :=
        List.any_eq_true.mpr ⟨r, hmeets.1.mem_instRegs hin hpos, hblocks⟩
      rw [hallowed.1] at hcollide
      cases hcollide
  | markReady w uid outputs => exact ⟨_, rfl⟩
  | release w i => exact ⟨_, rfl⟩
  | clear w => exact ⟨_, rfl⟩

/-- The completion of another instruction. -/
def OfOther (i : ScoreInst) : ScoreCall → Prop
  | .release _ j => j.uid ≠ i.uid
  | .markReady _ uid _ => uid ≠ i.uid
  | .reserve _ _ => False
  | .clear _ => False

/-- The completion of another instruction changes nothing for an owned register. -/
theorem Sound.other (h : s.Sound) {w r : Nat} (hi : Owns s.log w r i) (hcall : OfOther i call)
    (hok : s.step call = .ok t) : (t.warps w).view r = (s.warps w).view r := by
  obtain ⟨-, hother⟩ := step_frame hok
  rcases eq_or_ne w call.warp with rfl | hw
  · have howner := ((h call.warp r).owner_eq hi).1
    rw [step_view hok]
    cases call with
    | release w j =>
      dsimp only [ScoreCall.warp] at howner ⊢
      refine if_neg fun hrel => hcall ?_
      exact (Option.some.inj (howner.symm.trans hrel.2.1)).symm
    | markReady w uid outputs =>
      dsimp only [ScoreCall.warp] at howner ⊢
      refine if_neg fun hmark => hcall ?_
      exact (Option.some.inj (howner.symm.trans hmark.2.2)).symm
    | reserve w j => exact absurd hcall id
    | clear w => exact absurd hcall id
  · rw [hother w hw]

/-- A load from global memory into register 7. -/
def load7 : ScoreInst := { uid := 1, op := .load, space := .global, out := [7] }

-- a vector destination without its first component: the collision is not seen
example : (runAllowed step Allowed {} [.reserve 0 load7]).any (fun s =>
    !(s.warps 0).checkCollision { uid := 2, out := [0, 7] } &&
      ((s.warps 0).reserveRegisters { uid := 2, out := [0, 7] }).toOption.isNone) = true := by
  decide

-- a younger instruction that is no load takes over a register of a long load
example : (runAllowed step Allowed {} [.reserve 0 load7, .markReady 0 1 [7],
    .reserve 0 { uid := 2, out := [7] }]).any (fun s =>
      decide (7 ∈ (s.warps 0).longopregs ∧ (s.warps 0).regOwner 7 = some 2)) = true := by
  decide

end Scoreboard

end FlashGpuSim
