import FlashGpuSim.Cache.CacheRun

/-!
The reads that are out and the entries of the miss table that wait for them are in
one-to-one correspondence, whatever the policies of the cache.
-/

namespace FlashGpuSim

open Lib

variable {cfg : CacheConfig} {m m' : MshrTable} {extra extra' : Table ExtraMfFields}
  {mf : MemFetch} {a b : NewAddrType}

/-- Each read that is out has an entry that is not ready, each such entry has one read. -/
structure MissesTracked (cfg : CacheConfig) (m : MshrTable) (extra : Table ExtraMfFields) :
    Prop where
  sound : m.Sound cfg
  pending : ∀ id e, extra.lookup id = some e → m.probe e.blockAddr = true
  owned : ∀ a, m.probe a = true → ∃ id e, extra.lookup id = some e ∧ e.blockAddr = a
  distinct : ∀ id id' e e', extra.lookup id = some e → extra.lookup id' = some e' →
    e.blockAddr = e'.blockAddr → id = id'

namespace MissesTracked

theorem init {log : List MissEvent} :
    MissesTracked cfg { data := ∅, currentResponse := [], log := log } ∅ where
  sound := MshrTable.sound_empty
  pending := fun _ _ h => by cases h
  owned := fun _ h => by cases h
  distinct := fun _ _ _ _ h => by cases h

/-- A request that changes no entry from waiting to ready or back keeps the pairs. -/
theorem congr (h : MissesTracked cfg m extra) (hsound : m'.Sound cfg)
    (hprobe : ∀ b, m'.probe b = m.probe b) : MissesTracked cfg m' extra where
  sound := hsound
  pending := fun id e he => (hprobe _).trans (h.pending id e he)
  owned := fun b hb => h.owned b ((hprobe b).symm.trans hb)
  distinct := h.distinct

theorem forward (h : MissesTracked cfg m extra) (hadd : m.addReady cfg a mf = .ok m') :
    MissesTracked cfg m' extra := by
  obtain ⟨hready, hentered, hsize, hmerge⟩ := MshrTable.addReady_spec hadd
  refine h.congr (hentered.sound h.sound hready (hsize ▸ h.sound.size) hmerge) (fun b => ?_)
  rw [hentered.probe]
  split
  · rename_i hb
    subst hb
    obtain ⟨e, hlook, he⟩ := MshrTable.probeReady_eq_true.mp hready
    rw [MshrTable.probe_of_lookup hlook]
    change false = !e.ready
    rw [he]
    rfl
  · rfl

theorem merge {atomic : Bool} (h : MissesTracked cfg m extra) (hhit : m.probe a = true)
    (hadd : m.add cfg a mf atomic = .ok m') : MissesTracked cfg m' extra := by
  obtain ⟨hready, hentered, hsize, hmerge⟩ := MshrTable.add_spec hadd
  refine h.congr (hentered.sound h.sound hready hsize hmerge) (fun b => ?_)
  rw [hentered.probe]
  split
  · rename_i hb
    subst hb
    exact hhit.symm
  · rfl

/-- A read goes out for a block that none is out for. -/
theorem send {atomic : Bool} {id : Nat} {e : ExtraMfFields} (h : MissesTracked cfg m extra)
    (hhit : m.probe a = false) (hadd : m.add cfg a mf atomic = .ok m')
    (hid : extra.lookup id = none) (he : e.blockAddr = a) :
    MissesTracked cfg m' (extra.insert id e) := by
  obtain ⟨hready, hentered, hsize, hmerge⟩ := MshrTable.add_spec hadd
  have hold : ∀ id' e', extra.lookup id' = some e' → e'.blockAddr ≠ a := by
    intro id' e' he' ha
    have hpending := h.pending id' e' he'
    rw [ha, hhit] at hpending
    cases hpending
  constructor
  · exact hentered.sound h.sound hready hsize hmerge
  · intro id' e' he'
    rw [Table.lookup_insert] at he'
    rw [hentered.probe]
    split at he'
    · cases he'
      rw [if_pos he]
      rfl
    · rw [if_neg (hold id' e' he')]
      exact h.pending id' e' he'
  · intro b hb
    rw [hentered.probe] at hb
    split at hb
    · rename_i hba
      refine ⟨id, e, ?_, he.trans hba.symm⟩
      rw [Table.lookup_insert, if_pos rfl]
    · obtain ⟨id', e', he', hblock⟩ := h.owned b hb
      refine ⟨id', e', ?_, hblock⟩
      rw [Table.lookup_insert, if_neg]
      · exact he'
      · rintro rfl
        rw [hid] at he'
        cases he'
  · intro i j x y hx hy hxy
    rw [Table.lookup_insert] at hx hy
    split at hx
    · rename_i hi
      split at hy
      · rename_i hj
        exact hi.trans hj.symm
      · cases hx
        exact absurd (hxy.symm.trans he) (hold j y hy)
    · split at hy
      · cases hy
        exact absurd (hxy.trans he) (hold i x hx)
      · exact h.distinct i j x y hx hy hxy

/-- The data of a read arrive, and the read is out no longer. -/
theorem fill {atomic : Bool} {id : Nat} {e : ExtraMfFields} (h : MissesTracked cfg m extra)
    (he : extra.lookup id = some e) (hmark : m.markReady e.blockAddr = .ok (m', atomic)) :
    MissesTracked cfg m' (extra.erase id) := by
  obtain ⟨hfilled, -⟩ := MshrTable.markReady_spec hmark
  constructor
  · exact hfilled.sound h.sound
  · intro i x hx
    rw [Table.lookup_erase] at hx
    split at hx
    · cases hx
    · rename_i hi
      rw [hfilled.probe, if_neg]
      · exact h.pending i x hx
      · intro hblock
        exact hi (h.distinct i id x e hx he hblock)
  · intro b hb
    rw [hfilled.probe] at hb
    split at hb
    · cases hb
    · rename_i hne
      obtain ⟨i, x, hx, hblock⟩ := h.owned b hb
      refine ⟨i, x, ?_, hblock⟩
      rw [Table.lookup_erase, if_neg]
      · exact hx
      · rintro rfl
        rw [he] at hx
        cases hx
        exact hne hblock.symm
  · intro i j x y hx hy
    rw [Table.lookup_erase] at hx hy
    split at hx
    · cases hx
    · split at hy
      · cases hy
      · exact h.distinct i j x y hx hy

/-- A split response is counted in the read's own record. -/
theorem count {id : Nat} {e e' : ExtraMfFields} (h : MissesTracked cfg m extra)
    (he : extra.lookup id = some e) (hblock : e'.blockAddr = e.blockAddr) :
    MissesTracked cfg m (extra.insert id e') := by
  have hlook : ∀ i x, (extra.insert id e').lookup i = some x →
      ∃ y, extra.lookup i = some y ∧ y.blockAddr = x.blockAddr := by
    intro i x hx
    rw [Table.lookup_insert] at hx
    split at hx
    · rename_i hi
      cases hx
      exact ⟨e, hi ▸ he, hblock.symm⟩
    · exact ⟨x, hx, rfl⟩
  constructor
  · exact h.sound
  · intro i x hx
    obtain ⟨y, hy, hxy⟩ := hlook i x hx
    rw [← hxy]
    exact h.pending i y hy
  · intro b hb
    obtain ⟨i, x, hx, hxb⟩ := h.owned b hb
    rcases Decidable.eq_or_ne i id with rfl | hi
    · refine ⟨i, e', ?_, ?_⟩
      · rw [Table.lookup_insert, if_pos rfl]
      · rw [he] at hx
        cases hx
        exact hblock.trans hxb
    · refine ⟨i, x, ?_, hxb⟩
      rw [Table.lookup_insert, if_neg hi]
      exact hx
  · intro i j x y hx hy hxy
    obtain ⟨x', hx', hxx⟩ := hlook i x hx
    obtain ⟨y', hy', hyy⟩ := hlook j y hy
    exact h.distinct i j x' y' hx' hy' (hxx.trans (hxy.trans hyy.symm))

theorem drain (h : MissesTracked cfg m extra) (hnext : m.nextAccess = .ok (m', mf)) :
    MissesTracked cfg m' extra := by
  obtain ⟨a, hreturned, hsound⟩ := MshrTable.nextAccess_spec hnext h.sound
  exact h.congr hsound (hreturned.probe_eq h.sound)

end MissesTracked

namespace BaselineCache

variable {c c' : BaselineCache cfg} {time : BitVec 32} {readOnly wa : Bool} {id : Nat}

/-- The pairs of the cache. -/
def Tracked (c : BaselineCache cfg) : Prop := MissesTracked cfg c.mshrs c.extraMfFields

theorem Tracked.same (h : c.Tracked) (hsame : c.SameMisses c') : c'.Tracked := by
  unfold Tracked
  rw [hsame.mshrs, hsame.extra]
  exact h

theorem waitingForFill_eq_false : c.waitingForFill id = false ↔
    c.extraMfFields.lookup id = none := by
  unfold waitingForFill
  rw [Option.isSome_eq_false_iff, Option.isNone_iff_eq_none]

theorem ReadOutcome.tracked {r : ReadRequest cfg} (hr : c.ReadOutcome mf time readOnly wa r)
    (h : c.Tracked) (hid : c.waitingForFill mf.id = false) : r.cache.Tracked := by
  cases hr with
  | forward m _ _ hadd => exact MissesTracked.forward h hadd
  | merge a m hhit _ hadd => exact MissesTracked.merge h hhit hadd
  | send a m hhit _ hadd =>
    exact MissesTracked.send h hhit hadd (waitingForFill_eq_false.mp hid) rfl
  | retry => exact h

end BaselineCache

end FlashGpuSim
