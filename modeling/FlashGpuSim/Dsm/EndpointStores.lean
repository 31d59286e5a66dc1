import FlashGpuSim.Dsm.EndpointAccounts

/-!
The acknowledgement of stores over whole runs: the counts of all that is under way for
two SMs add up, and a store is only reported done when it was applied.
-/

namespace FlashGpuSim

open Lib Relation

namespace DsmEndpoint

variable {σ : Type} {host : DsmHost σ} {guard : DsmGuard σ} {e : DsmEndpoint σ}
  {topo : GpuTopology} {gpc : Nat} {fcfg : DsmFabricConfig} {cfg : DsmEndpointConfig}

/-- The stores of `s` to `d` in the fabric. -/
def storesInFabric (e : DsmEndpoint σ) (s d : Nat) : Nat :=
  ((e.fab.lane ⟨.request, s, d⟩).filter (fun q => q.packetClass.isStore)).length

/-- The stores of `s` to `d` that wait at `d` to be applied. -/
def storesInIngress (e : DsmEndpoint σ) (s d : Nat) : Nat :=
  (e.ingress.filter (fun p => p.src == d && p.dst == s && p.cls.isStore)).length

/-- The stores that the acknowledgements in the fabric count. -/
def storesAcked (e : DsmEndpoint σ) (s d : Nat) : Nat := (e.acks s d).sum

/-- Each store that waits for its completion is under way, owed or acknowledged. -/
def StoresAddUp (e : DsmEndpoint σ) : Prop :=
  ∀ s d, (e.storeQ s d).length =
    e.storesInFabric s d + e.storesInIngress s d + e.acksOwed d s + e.storesAcked s d

/-- `write_unapplied` sees every store that was not applied. -/
def StoresVisible (e : DsmEndpoint σ) : Prop :=
  ∀ s d, e.writeUnapplied s d = false → ∀ t, .accepted t ∈ e.history → t.requester = s →
    t.target = d → t.cls.isStore = true → .applied t.id ∈ e.history

theorem travelling_length (e : DsmEndpoint σ) (s d : Nat) :
    (e.ledger s d).travelling.length = e.storesInIngress s d + e.storesInFabric s d := by
  unfold ledger upstream storesInIngress storesInFabric between
  simp only [List.length_map, List.filter_append, List.length_append, List.filter_map]
  congr 1
  · rw [List.filter_filter]
    congr 1
    apply List.filter_congr
    intro p hp
    simp only [Pending.token, Function.comp, isStore_ofRequest]
    rw [Bool.decide_and, Bool.and_comm]
    rfl
  · congr 1
    apply List.filter_congr
    intro q hq
    simp only [DsmPacket.token, Function.comp, isStore_ofRequest]

theorem Accounts.stores_add_up (h : Accounts e) : StoresAddUp e := by
  intro s d
  have hcount := (h.flow s d).ledger.count
  rw [travelling_length] at hcount
  change (e.storeQ s d).length = _ + e.acksOwed d s + (e.acks s d).sum at hcount
  unfold storesAcked
  omega

/-- A store that is done was applied before. -/
theorem Accounts.done_applied (h : Accounts e) {t : DsmTx} (ht : .accepted t ∈ e.history)
    (hstore : t.cls.isStore = true) (hdone : .txDone t.id ∈ e.history) :
    .applied t.id ∈ e.history := by
  obtain ⟨done, later, heq⟩ := List.append_of_mem hdone
  have happlied := h.tables.retired done t.id later heq t ht rfl hstore
  rw [heq]
  exact List.mem_append_left _ happlied

theorem Accounts.stores_visible (h : Accounts e) : StoresVisible e := by
  intro s d hclear t ht hs hd hstore
  rcases h.tables.settled t ht with hdone | ⟨t', hlook, hsame⟩
  · exact h.done_applied ht hstore hdone
  · rw [hs] at hlook
    obtain ⟨-, -, hin, hin', -⟩ := h.tables.entry s t.id t' hlook
    have htarget : t'.target = d := by
      rw [← hd, ← hsame]
    have hcls : t'.cls.isStore = true := by
      have hc : t'.cls = t.cls := by rw [← hsame]
      rw [hc]
      exact hstore
    refine (h.tables.live s t.id t' hlook).2.2 ?_
    -- otherwise the table shows a store that was not applied
    by_contra hunapplied
    unfold writeUnapplied at hclear
    rw [if_pos ⟨hin, by omega⟩, Bool.or_eq_false_iff] at hclear
    have hany := (Table.any_entries (e.tx s)
      (fun t => t.target == d && t.cls.isStore && !t.applied)).mpr
      ⟨t.id, t', hlook, by simp [htarget, hcls, hunapplied]⟩
    rw [hany] at hclear
    cases hclear.1

end DsmEndpoint

end FlashGpuSim
