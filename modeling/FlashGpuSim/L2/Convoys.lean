import FlashGpuSim.L2.SubPartition
import FlashGpuSim.Lib.History

/-!
The history of coalesced reads. A master and the reads that joined it form a convoy, in the
order in which they came. A master is current for its sector while it is unanswered and
neither a write to the sector nor another master has entered behind it.
-/

namespace FlashGpuSim

open Lib

namespace L2Fetch

variable (mf : L2Fetch)

/-- A write or an atomic, as the code that sent it sees it, that touches the sector at `a`. -/
def Alters (a : NewAddrType) : Prop :=
  (mf.isWrite = true ∨ mf.isAtomic = true ∨ mf.originalIsAtomic = true) ∧
    a.toNat < mf.addr.toNat + mf.dataSize ∧ mf.addr.toNat < a.toNat + 32

/-- A write or an atomic is marked as such and stays within one sector. -/
def WithinSector : Prop :=
  mf.isWrite = true ∨ mf.isAtomic = true ∨ mf.originalIsAtomic = true →
    (mf.isWrite = true ∨ mf.isAtomic = true) ∧ mf.addr.toNat % 32 + mf.dataSize ≤ 32

instance : Decidable mf.WithinSector :=
  inferInstanceAs (Decidable (mf.isWrite = true ∨ mf.isAtomic = true ∨ mf.originalIsAtomic = true →
    (mf.isWrite = true ∨ mf.isAtomic = true) ∧ mf.addr.toNat % 32 + mf.dataSize ≤ 32))

variable {mf} {m : L2Fetch}

theorem sectorAddr_toNat (mf : L2Fetch) :
    mf.sectorAddr.toNat = mf.addr.toNat - mf.addr.toNat % 32 := by
  have hle : mf.addr % 32 ≤ mf.addr := by
    rw [BitVec.le_def, BitVec.toNat_umod]
    exact Nat.mod_le _ _
  unfold sectorAddr
  rw [BitVec.toNat_sub_of_le hle, BitVec.toNat_umod]
  rfl

/-- A request within a sector alters no other one. -/
theorem WithinSector.alters (h : mf.WithinSector) (halters : mf.Alters m.sectorAddr) :
    (mf.isWrite = true ∨ mf.isAtomic = true) ∧ mf.sectorAddr = m.sectorAddr := by
  obtain ⟨hkind, hlow, hhigh⟩ := halters
  obtain ⟨hmarked, hwithin⟩ := h hkind
  refine ⟨hmarked, BitVec.eq_of_toNat_eq ?_⟩
  rw [sectorAddr_toNat] at hlow hhigh ⊢
  rw [sectorAddr_toNat]
  omega

theorem isTmaSector_iff : mf.isTmaSector = true ↔ mf.isWrite = false ∧ mf.isAtomic = false ∧
    mf.accessType = .tmaAccR ∧ mf.dataSize = 32 := by
  unfold isTmaSector
  simp only [Bool.and_eq_true, Bool.not_eq_true', decide_eq_true_eq, and_assoc]

end L2Fetch

namespace L2Event

/-- A request is admitted once it enters the queue or joins a master. -/
def admitted? : L2Event → Option L2Fetch
  | entered mf | joined mf _ => some mf
  | responded _ | delivered _ => none

def joinedTo? (m : L2Fetch) : L2Event → Option L2Fetch
  | joined mf master => if master = m then some mf else none
  | entered _ | responded _ | delivered _ => none

def deliveredTma? : L2Event → Option L2Fetch
  | delivered mf => if mf.accessType = .tmaAccR then some mf else none
  | entered _ | joined _ _ | responded _ => none

variable {m r : L2Fetch} {e : L2Event}

theorem joinedTo?_eq_some : e.joinedTo? m = some r ↔ e = .joined r m := by
  cases e with
  | joined mf master =>
    unfold joinedTo?
    dsimp only
    split
    · rename_i hmaster
      rw [hmaster]
      simp
    · rename_i hmaster
      simp [hmaster]
  | entered mf => exact ⟨nofun, nofun⟩
  | responded mf => exact ⟨nofun, nofun⟩
  | delivered mf => exact ⟨nofun, nofun⟩

end L2Event

/-! ### Histories -/

section History

variable {log l₁ l₂ : List L2Event} {m m' r x : L2Fetch} {e : L2Event} {a : NewAddrType}

def admitted (log : List L2Event) : List L2Fetch := log.filterMap L2Event.admitted?

/-- A master and the reads that joined it. -/
def convoy (log : List L2Event) (m : L2Fetch) : List L2Fetch :=
  m :: log.filterMap (L2Event.joinedTo? m)

def deliveries (log : List L2Event) : List L2Fetch := log.filterMap L2Event.deliveredTma?

/-- What of a convoy was delivered. -/
def deliveredOf (log : List L2Event) (m : L2Fetch) : List L2Fetch :=
  (deliveries log).filter (· ∈ convoy log m)

def IsMaster (log : List L2Event) (m : L2Fetch) : Prop :=
  L2Event.entered m ∈ log ∧ m.isTmaSector = true

/-- The master of the sector at `a` that a read may join. -/
structure Current (log : List L2Event) (m : L2Fetch) (a : NewAddrType) : Prop where
  master : m.isTmaSector = true
  addr : m.sectorAddr = a
  unanswered : L2Event.responded m ∉ log
  since : ∃ l₁ l₂, log = l₁ ++ .entered m :: l₂ ∧ ∀ w, L2Event.entered w ∈ l₂ →
    ¬ w.Alters a ∧ ¬ (w.isTmaSector = true ∧ w.sectorAddr = a)

theorem Current.isMaster (h : Current log m a) : IsMaster log m := by
  obtain ⟨l₁, l₂, hlog, -⟩ := h.since
  refine ⟨?_, h.master⟩
  rw [hlog]
  exact List.mem_append_right _ List.mem_cons_self

theorem Current.concat (h : Current log m a) (hresponded : e ≠ .responded m)
    (hentered : ∀ w, e = .entered w → ¬ w.Alters a ∧ ¬ (w.isTmaSector = true ∧ w.sectorAddr = a)) :
    Current (log ++ [e]) m a where
  master := h.master
  addr := h.addr
  unanswered := by
    rw [List.mem_append, List.mem_singleton, not_or]
    exact ⟨h.unanswered, hresponded.symm⟩
  since := by
    obtain ⟨l₁, l₂, rfl, hsince⟩ := h.since
    refine ⟨l₁, l₂ ++ [e], by simp, ?_⟩
    intro w hw
    rcases List.mem_append.mp hw with hw | hw
    · exact hsince w hw
    · exact hentered w (List.mem_singleton.mp hw).symm

theorem Current.append (h : Current log m a) (xs : List L2Fetch) :
    Current (log ++ xs.map L2Event.delivered) m a := by
  induction xs generalizing log with
  | nil => rwa [List.map_nil, List.append_nil]
  | cons x xs ih =>
    rw [List.map_cons, List.append_cons]
    exact ih (h.concat nofun fun _ h => nomatch h)

theorem current_entered (hmaster : m.isTmaSector = true) (hunanswered : .responded m ∉ log) :
    Current (log ++ [L2Event.entered m]) m m.sectorAddr where
  master := hmaster
  addr := rfl
  unanswered := by
    rw [List.mem_append, List.mem_singleton, not_or]
    exact ⟨hunanswered, nofun⟩
  since := ⟨log, [], rfl, fun _ hw => absurd hw List.not_mem_nil⟩

/-! ### Requests that are admitted once -/

theorem mem_joined : r ∈ log.filterMap (L2Event.joinedTo? m) ↔ .joined r m ∈ log := by
  rw [List.mem_filterMap]
  simp only [L2Event.joinedTo?_eq_some, exists_eq_right]

theorem mem_convoy : x ∈ convoy log m ↔ x = m ∨ .joined x m ∈ log := by
  unfold convoy
  rw [List.mem_cons, mem_joined]

theorem mem_admitted_of_joined (h : .joined r m ∈ log) : r ∈ admitted log :=
  List.mem_filterMap.mpr ⟨_, h, rfl⟩

theorem mem_admitted_of_entered (h : .entered x ∈ log) : x ∈ admitted log :=
  List.mem_filterMap.mpr ⟨_, h, rfl⟩

/-- A request is in one convoy only, and a master in none but its own. -/
theorem convoy_unique (h : (admitted log).Nodup) (hm : IsMaster log m) (hm' : IsMaster log m')
    (hx : x ∈ convoy log m) (hx' : x ∈ convoy log m') : m = m' := by
  rcases mem_convoy.mp hx with rfl | hx
  · rcases mem_convoy.mp hx' with rfl | hx'
    · rfl
    · cases eq_of_nodup_filterMap h hm.1 hx' rfl rfl
  · rcases mem_convoy.mp hx' with rfl | hx'
    · cases eq_of_nodup_filterMap h hm'.1 hx rfl rfl
    · cases eq_of_nodup_filterMap h hx hx' rfl rfl
      rfl

theorem nodup_convoy (h : (admitted log).Nodup) (hm : IsMaster log m) : (convoy log m).Nodup := by
  unfold convoy
  rw [List.nodup_cons, mem_joined]
  constructor
  · intro hjoined
    cases eq_of_nodup_filterMap h hm.1 hjoined rfl rfl
  · refine List.Nodup.sublist (filterMap_sublist ?_ log) h
    intro e x he
    rw [L2Event.joinedTo?_eq_some.mp he]
    rfl

theorem convoy_admitted (hm : IsMaster log m) (hx : x ∈ convoy log m) : x ∈ admitted log := by
  rcases mem_convoy.mp hx with rfl | hx
  · exact mem_admitted_of_entered hm.1
  · exact mem_admitted_of_joined hx

end History

end FlashGpuSim
