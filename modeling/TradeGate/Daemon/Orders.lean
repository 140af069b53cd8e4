import Mathlib.Tactic.NormNum
import TradeGate.Model.AccountStream

/-! Orders served as fresh after a write. -/
namespace TradeGate.AccountStream
open Machine

variable {a : Account} {e : Event}

theorem isFresh_orders {c : AccountStreamCache} {now : ℚ} : c.isFresh .orders now ↔
    c.ordersInitialized=true ∧
      now-c.ordersReconciledAt ≤ if c.connected then staleAfterSeconds else restFallbackSeconds :=
  Iff.rfl

/-- A snapshot is fresh when it is stored. -/
theorem isFresh_replaceOrders (c : AccountStreamCache) (orders : List Row) (now : ℚ) :
    (c.replaceOrders orders now).isFresh .orders now := by
  rw [isFresh_orders]
  refine ⟨rfl,?_⟩
  change now-now ≤ _
  rw [sub_self]
  split_ifs <;> norm_num [staleAfterSeconds,restFallbackSeconds]

/-- The orders of a permit, or of a refusal, are those of before. -/
theorem beginRestFallback_orders (c : AccountStreamCache) (kind : AccountReadKind) (now : ℚ) :
    (c.beginRestFallback kind now).2.ordersInitialized=c.ordersInitialized := by
  unfold AccountStreamCache.beginRestFallback
  split_ifs <;> cases kind <;> rfl

namespace Account

/-- The orders in the cache come from a snapshot that was asked for after the last write. -/
def Backed (a : Account) : Prop := ∃ sent ∈ a.origin, ∀ w ∈ a.wroteAt, w<sent

/-- Orders served as fresh come from a snapshot that was asked for after the last write. -/
def FreshAfterWrite (a : Account) : Prop := ∀ now, a.cache.isFresh .orders now → a.Backed

/-- No snapshot of the orders comes back that was asked for before the last write. -/
def Current (a : Account) : Event → Prop
  | .answered k _ _ _ => ∀ r ∈ a.asked[k]?, r.asker.wantsOrders → ∀ w ∈ a.wroteAt, w<r.sentAt
  | _ => True

instance (a : Account) : DecidablePred a.Current
  | .answered k _ _ _ => by
    unfold Current
    infer_instance
  | .connected | .disconnected | .stream _ _ | .wrote | .reconcile | .fallback _ _ | .failed _ _
  | .dropped _ => .isTrue trivial

/-- The flag is set only over orders that are backed. -/
def Sound (a : Account) : Prop := a.cache.ordersInitialized=true → a.Backed

theorem Sound.freshAfterWrite (h : a.Sound) : a.FreshAfterWrite := fun _ hf => h hf.1

theorem Sound.giveUp (h : a.Sound) (r : Asked) (now : ℚ) : (a.giveUp r now).Sound := by
  obtain ⟨asker,sentAt⟩ := r
  rcases asker with _|_|_ <;> exact h

/-- A snapshot asked for after the last write may be stored. -/
theorem Sound.store (h : a.Sound) {r : Asked} (orders positions : List Row) (now : ℚ)
    (hr : r.asker.wantsOrders → ∀ w ∈ a.wroteAt, w<r.sentAt) :
    (a.store r orders positions now).Sound := by
  obtain ⟨asker,sentAt⟩ := r
  rcases asker with _|_|_
  · exact fun _ => ⟨sentAt,rfl,hr trivial⟩
  · exact fun _ => ⟨sentAt,rfl,hr rfl⟩
  · exact h

theorem Sound.occur (h : a.Sound) (hc : a.Current e) : (a.occur e).Sound := by
  cases e with
  | connected | disconnected | reconcile | dropped => exact h
  | stream e => cases e <;> exact h
  | wrote => exact nofun
  | fallback kind now =>
    have hsame := beginRestFallback_orders a.cache kind now
    simp only [occur]
    split <;> rename_i c heq <;> rw [heq] at hsame <;> exact fun hi => h (hsame ▸ hi)
  | answered k orders positions now =>
    simp only [occur]
    split
    · rename_i r hr
      exact Sound.store (a := { a with asked := a.asked.eraseIdx k }) h orders positions now (hc r hr)
    · exact h
  | failed k now =>
    simp only [occur]
    split
    · exact Sound.giveUp (a := { a with asked := a.asked.eraseIdx k }) h _ now
    · exact h

theorem Sound.step (h : a.Sound) (hc : a.Current e) : (a.step e).Sound := h.occur hc

/-- A snapshot is fresh once it is stored, so it must have been asked for after the last write. -/
theorem current_of_fresh (h : (a.step e).FreshAfterWrite) : a.Current e := by
  cases e with
  | answered k orders positions now =>
    intro ⟨asker,sentAt⟩ hr hw
    simp only [Account.step,occur,Option.mem_def.mp hr] at h
    have hfresh := isFresh_replaceOrders a.cache orders now
    rcases asker with _|_|_
    · obtain ⟨_,⟨⟩,hlt⟩ := h now hfresh
      exact hlt
    · obtain ⟨_,⟨⟩,hlt⟩ := h now hfresh
      exact hlt
    · cases hw
  | _ => trivial

/-- In every run, the orders served as fresh are from after the last write exactly as long as no
snapshot comes back that was asked for before it. -/
theorem fresh_orders_iff_no_overtaken_snapshot (es : List Event) :
    Throughout step Current {} es ↔
      Throughout step (fun a e => (a.step e).FreshAfterWrite) {} es :=
  ⟨throughout_of_invariant (I := Sound) (fun _ _ h hc => h.step hc)
    (fun _ _ h hc => (h.step hc).freshAfterWrite) nofun,
    Throughout.mono fun _ _ => current_of_fresh⟩

/-- A snapshot asked for before an order was sent comes back after it, and serves the orders without
that one as fresh. -/
theorem overtaken_snapshot_served_fresh : ¬∀ es : List Event, (run step {} es).FreshAfterWrite := by
  intro hall
  have hage : (0 : ℚ)-0 ≤ restFallbackSeconds := by norm_num [restFallbackSeconds]
  obtain ⟨sent,hsent,hlt⟩ := hall [.reconcile,.wrote,.answered 0 [] [] 0] 0 ⟨rfl,hage⟩
  cases hsent
  exact absurd (hlt 1 rfl) (by decide)

end Account
end TradeGate.AccountStream
