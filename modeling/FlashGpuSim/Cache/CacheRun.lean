import FlashGpuSim.Cache.BaselineCache
import FlashGpuSim.Cache.MshrMoves

/-!
Runs of a cache, and what the parts of an access leave unchanged.
-/

namespace FlashGpuSim

open Lib

/-- What the owner of a cache does to it. -/
inductive CacheOp where
  | access (mf : MemFetch) (time : BitVec 32) (nMf wb : Nat)
  | cycle (portFull : Bool)
  | fill (id : Nat) (time : BitVec 32)
  | nextAccess
  deriving DecidableEq, Repr

namespace BaselineCache

variable {cfg : CacheConfig} {c c' : BaselineCache cfg} {mf : MemFetch} {time : BitVec 32}
  {index : Nat} {e : Option EvictedBlockInfo} {wb : Nat} {readOnly wa : Bool}

def step (c : BaselineCache cfg) : CacheOp → Except CacheFailure (BaselineCache cfg)
  | .access mf time nMf wb => do
    let (c, _) ← c.access mf time nMf wb
    pure c
  | .cycle portFull => .ok (c.cycle portFull)
  | .fill id time => c.fill id time
  | .nextAccess => do
    let (c, _) ← c.nextAccess
    pure c

/-- A request that waits for its fill is not passed in again, and the allocator hands out
no such request either. A response answers a read that is out. -/
def allowed (c : BaselineCache cfg) : CacheOp → Prop
  | .access mf _ nMf _ => c.waitingForFill mf.id = false ∧ c.waitingForFill nMf = false
  | .cycle _ => True
  | .fill id _ => c.waitingForFill id = true
  | .nextAccess => c.mshrs.currentResponse ≠ []

instance (c : BaselineCache cfg) (o : CacheOp) : Decidable (c.allowed o) := by
  cases o <;> unfold allowed <;> infer_instance

/-- The caches that the operations of a list of caches reach. -/
def Reachable (cfg : CacheConfig) (c : BaselineCache cfg) : Prop :=
  Reaches (fun c o => c.step o) allowed (init cfg) c

/-! ### Frames -/

/-- The tags and the misses under way are the same. -/
structure SameCore (c c' : BaselineCache cfg) : Prop where
  tags : c'.tags = c.tags
  mshrs : c'.mshrs = c.mshrs
  extra : c'.extraMfFields = c.extraMfFields

/-- The misses under way are the same. -/
structure SameMisses (c c' : BaselineCache cfg) : Prop where
  mshrs : c'.mshrs = c.mshrs
  extra : c'.extraMfFields = c.extraMfFields

theorem SameCore.misses (h : c.SameCore c') : c.SameMisses c' := ⟨h.mshrs, h.extra⟩

theorem SameMisses.refl (c : BaselineCache cfg) : c.SameMisses c := ⟨rfl, rfl⟩

theorem SameMisses.trans {c'' : BaselineCache cfg} (h : c.SameMisses c')
    (h' : c'.SameMisses c'') : c.SameMisses c'' :=
  ⟨h'.mshrs.trans h.mshrs, h'.extra.trans h.extra⟩

theorem sendWriteRequest_same (c : BaselineCache cfg) (mf : MemFetch) :
    c.SameCore (c.sendWriteRequest mf) := ⟨rfl, rfl, rfl⟩

theorem sendWriteBack_same (c : BaselineCache cfg) (wb : Nat) (e : Option EvictedBlockInfo) :
    c.SameCore (c.sendWriteBack wb e) := by
  unfold sendWriteBack
  split
  · exact ⟨rfl, rfl, rfl⟩
  · split
    · exact ⟨rfl, rfl, rfl⟩
    · exact ⟨rfl, rfl, rfl⟩

theorem modifyLine_same (c : BaselineCache cfg) (index : Nat)
    (f : CacheBlock cfg.cacheType → CacheBlock cfg.cacheType) :
    c.SameMisses (c.modifyLine index f) := ⟨rfl, rfl⟩

theorem markModified_spec (hok : c.markModified index mf = .ok c') :
    c.SameMisses c' ∧ ∃ s, cfg.cacheType.getSectorIndex mf.sectorMask = .ok s ∧
      c'.tags.lines = (c.tags.setLine index
        (((c.tags.lines index).setStatus .modified s).setByteMask mf.byteMask)).lines := by
  unfold markModified at hok
  obtain ⟨s, hs, hok⟩ := bind_eq_ok hok
  cases hok
  exact ⟨⟨rfl, rfl⟩, s, hs, rfl⟩

theorem updateMReadable_spec (hok : c.updateMReadable mf index = .ok c') :
    c' = c ∨ ∃ s, c' = c.modifyLine index (fun line => line.setMReadable true s) := by
  unfold updateMReadable at hok
  obtain ⟨s, -, hok⟩ := bind_eq_ok hok
  split at hok
  · cases hok
    exact .inr ⟨s, rfl⟩
  · cases hok
    exact .inl rfl

theorem updateMReadable_same (hok : c.updateMReadable mf index = .ok c') : c.SameMisses c' := by
  rcases updateMReadable_spec hok with rfl | ⟨s, rfl⟩
  · exact .refl c'
  · exact modifyLine_same _ _ _

/-- What `send_read_request` keeps of a read it sends. -/
def extraFor (cfg : CacheConfig) (mf : MemFetch) (index : Nat) : ExtraMfFields where
  mf := mf
  blockAddr := cfg.mshrAddr mf.addr
  addr := mf.addr
  cacheIndex := index
  dataSize := mf.dataSize
  pendingRead :=
    match cfg.mshrType with
    | .sectorAssoc => cfg.lineSz / sectorSize
    | .assoc => 0

/-- The outcomes of a read request: the response being drained takes it, it joins the read
under way, it goes out, or it has to be tried again. -/
inductive ReadOutcome (c : BaselineCache cfg) (mf : MemFetch) (time : BitVec 32)
    (readOnly wa : Bool) : ReadRequest cfg → Prop where
  | forward (m : MshrTable) (hwa : wa = false) (hatomic : mf.isAtomic = false)
      (hadd : c.mshrs.addReady cfg (cfg.mshrAddr mf.addr) mf = .ok m) :
      ReadOutcome c mf time readOnly wa ⟨{ c with mshrs := m }, true, none⟩
  | merge (a : TagAccess cfg.cacheType) (m : MshrTable)
      (hhit : c.mshrs.probe (cfg.mshrAddr mf.addr) = true)
      (haccess : c.accessTags mf time readOnly = .ok a)
      (hadd : c.mshrs.add cfg (cfg.mshrAddr mf.addr) mf mf.isAtomic = .ok m) :
      ReadOutcome c mf time readOnly wa ⟨{ c with tags := a.tags, mshrs := m }, true, a.evicted⟩
  | send (a : TagAccess cfg.cacheType) (m : MshrTable)
      (hhit : c.mshrs.probe (cfg.mshrAddr mf.addr) = false)
      (haccess : c.accessTags mf time readOnly = .ok a)
      (hadd : c.mshrs.add cfg (cfg.mshrAddr mf.addr) mf mf.isAtomic = .ok m) :
      ReadOutcome c mf time readOnly wa
        ⟨{ tags := a.tags
           mshrs := m
           missQueue := c.missQueue ++
             [{ mf with dataSize := cfg.atomSz.toNat, addr := cfg.mshrAddr mf.addr }]
           extraMfFields :=
             c.extraMfFields.insert mf.id (extraFor cfg mf (a.idx.getD 0)) }, true, a.evicted⟩
  | retry : ReadOutcome c mf time readOnly wa ⟨c, false, none⟩

theorem sendReadRequest_outcome {r : ReadRequest cfg}
    (hok : c.sendReadRequest mf time readOnly wa = .ok r) :
    c.ReadOutcome mf time readOnly wa r := by
  unfold sendReadRequest at hok
  dsimp only at hok
  split at hok
  · rename_i hforward
    obtain ⟨m, hadd, hok⟩ := bind_eq_ok hok
    cases hok
    unfold readyForwardEligible at hforward
    rw [Bool.and_eq_true, Bool.and_eq_true, Bool.not_eq_true', Bool.not_eq_true'] at hforward
    exact .forward m hforward.1.2 hforward.2 hadd
  · split at hok
    · rename_i hmerge
      obtain ⟨a, haccess, hok⟩ := bind_eq_ok hok
      obtain ⟨m, hadd, hok⟩ := bind_eq_ok hok
      cases hok
      exact .merge a m (Bool.and_eq_true_iff.mp hmerge).1 haccess hadd
    · split at hok
      · rename_i hsend
        obtain ⟨a, haccess, hok⟩ := bind_eq_ok hok
        obtain ⟨m, hadd, hok⟩ := bind_eq_ok hok
        cases hok
        rw [Bool.and_eq_true, Bool.and_eq_true, Bool.not_eq_true'] at hsend
        exact .send a m hsend.1.1 haccess hadd
      · split at hok
        · cases hok
          exact .retry
        · split at hok
          · cases hok
            exact .retry
          · cases hok

end BaselineCache

end FlashGpuSim
