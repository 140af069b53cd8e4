import TradeGate.Custody.Deeds
import TradeGate.Model.Verify

/-! What a verification of the protection does: it leaves threads and intents alone, and sends its own
orders only. -/
namespace TradeGate
open Coop Contract

/-- A request that an operation makes before it sends its entry. -/
def Call.precedesEntry : Call → Prop
  | .account | .symbolRules _ | .markPrice _ | .openingData _ _ | .marketView _ _ | .setLeverage _ _
  | .setMarginType _ _ | .listAlgoOrders _ | .cancelAlgoOrder _ _ => True
  | _ => False

instance : DecidablePred Call.precedesEntry
  | .account | .symbolRules _ | .markPrice _ | .openingData _ _ | .marketView _ _ | .setLeverage _ _
  | .setMarginType _ _ | .listAlgoOrders _ | .cancelAlgoOrder _ _ => .isTrue trivial
  | .getOrder _ _ | .algoOrderExists _ _ | .placeEntry _ | .openWithProtection _ | .placeStop _ _ _ _
  | .placeTakeProfit _ _ _ _ | .closePosition _ _ | .reducePosition _ _ _ | .cancelAll _ | .cancelOrder _ _
  | .sleep _ | .pollAccount | .startBackend _ | .stopBackend _ => .isFalse id

/-- The entry of a verification. -/
def EntryRequest.verifies (symbol : String) (req : EntryRequest) : Prop :=
  req.symbol=symbol ∧ req.direction=.long ∧ req.entry=.market ∧ ∃ tag, req.clientOrderId=verifyCid tag "e"

/-- The orders of a verification: a long entry at the market, its stop, and the cancel of the stop. -/
def Call.verifies (symbol : String) : Call → Prop
  | .placeEntry req => req.verifies symbol
  | .openWithProtection req =>
    req.entry.verifies symbol ∧ (∃ tag, req.stopClientAlgoId=verifyCid tag "s") ∧ req.takeProfit=none
  | .placeStop s _ _ cid | .cancelOrder s cid => s=symbol ∧ ∃ tag, cid=verifyCid tag "s"
  | _ => False

/-- The writes and requests of a verification.  The invariant depends on threads and intents only, and an
entry is sent only while a second one holds, which lasts over the requests before. -/
def verifying (ω : Type) (symbol : String) (J N : Runtime → Prop) : Contract Runtime ω Writer Call Answer where
  may s _ q := J s ∧ (q.asks ∨ q.clears ∨ q.verifies symbol) ∧ (q.entry?=none ∨ N s)
  write s _ _ s' := s'.threads=s.threads ∧ s'.intents=s.intents
  back s _ q _ s' _ := J s' ∧ (q.precedesEntry → N s → N s')
  quit s _ := J s

section
variable {ω : Type} {J N : Runtime → Prop} {s : Runtime} {w : ω} (symbol : String)
  (hJ : ∀ s s' : Runtime, s'.threads=s.threads → s'.intents=s.intents → J s → J s')
  (hN : ∀ s s' : Runtime, s'.threads=s.threads → s'.intents=s.intents → N s → N s')

/-- Both invariants hold. -/
abbrev Both (J N : Runtime → Prop) {α : Type} : α → Runtime → ω → Prop := fun _ s _ => J s ∧ N s

theorem cancelEach_keeps (h : J s ∧ N s) (cids : List String) :
    (verifying ω symbol J N).Meets (cancelEach symbol cids) (Both J N) s w := by
  induction cids generalizing s w with
  | nil => exact h
  | cons cid cids ih =>
    simp only [cancelEach,Meets.read_bind]
    split
    · exact h.1
    · simp only [Meets.request_bind]
      refine ⟨⟨h.1,.inr (.inl trivial),.inl rfl⟩,fun c s₁ w₁ hb => ?_⟩
      exact Meets.bind (ih ⟨hb.1,hb.2 trivial h.2⟩) fun _ _ _ h => h

theorem clearStale_keeps (h : J s ∧ N s) :
    (verifying ω symbol J N).Meets (clearStale symbol) (Both J N) s w := by
  simp only [clearStale,Meets.read_bind]
  split
  · exact h
  · simp only [Meets.request_bind]
    refine ⟨⟨h.1,.inl trivial,.inl rfl⟩,fun r s₁ w₁ hb => ?_⟩
    cases r with
    | error e => exact hb.1
    | ok stale =>
      simp only [orThrow,Prog.done_bind]
      refine Meets.bind (cancelEach_keeps symbol ⟨hb.1,hb.2 trivial h.2⟩ _) fun all s₂ w₂ h₂ => ?_
      split
      · exact h₂
      · exact h₂.1

theorem openCanary_keeps (tag : String) (h : J s ∧ N s) (rules : SymbolRules) (price : ℚ) :
    (verifying ω symbol J N).Meets (openCanary symbol tag rules price) (fun _ s _ => J s) s w := by
  have hreq : EntryRequest.verifies symbol
      ⟨symbol,.long,smallestQty rules price,.market,none,verifyCid tag "e"⟩ := ⟨rfl,rfl,rfl,tag,rfl⟩
  simp only [openCanary,Meets.read_bind]
  split
  · exact ⟨⟨h.1,.inr (.inr ⟨hreq,⟨tag,rfl⟩,rfl⟩),.inr h.2⟩,fun _ _ _ hb => hb.1⟩
  · simp only [Meets.request_bind]
    refine ⟨⟨h.1,.inr (.inr hreq),.inr h.2⟩,fun e s₁ w₁ hb => ?_⟩
    split
    · exact hb.1
    · exact ⟨⟨hb.1,.inr (.inr ⟨rfl,tag,rfl⟩),.inl rfl⟩,fun _ _ _ hb => hb.1⟩

theorem enterCanary_keeps (tag : String) (h : J s ∧ N s) :
    (verifying ω symbol J N).Meets (enterCanary symbol tag) (fun _ s _ => J s) s w := by
  simp only [enterCanary,Meets.request_bind]
  refine ⟨⟨h.1,.inl trivial,.inl rfl⟩,fun r s₁ w₁ hb => ?_⟩
  cases r with
  | error e => exact hb.1
  | ok acct =>
    simp only [orThrow,Prog.done_bind,Meets.read_bind]
    split
    · exact hb.1
    · refine Meets.bind (clearStale_keeps symbol ⟨hb.1,hb.2 trivial h.2⟩) fun _ s₂ w₂ h₂ => ?_
      simp only [Meets.request_bind]
      refine ⟨⟨h₂.1,.inl trivial,.inl rfl⟩,fun r s₃ w₃ hb₃ => ?_⟩
      cases r with
      | error e => exact hb₃.1
      | ok rules =>
        simp only [Prog.done_bind,Meets.request_bind]
        refine ⟨⟨hb₃.1,.inl trivial,.inl rfl⟩,fun r s₄ w₄ hb₄ => ?_⟩
        cases r with
        | error e => exact hb₄.1
        | ok mark =>
          simp only [Prog.done_bind]
          split
          · exact hb₄.1
          · split
            · exact ⟨⟨hb₄.1,.inr (.inr ⟨rfl,tag,rfl⟩),.inl rfl⟩,fun _ _ _ hb => hb.1⟩
            · exact openCanary_keeps symbol tag ⟨hb₄.1,hb₄.2 trivial (hb₃.2 trivial h₂.2)⟩ rules _

/-! What is left of a verification once its position is open. -/

theorem cancelCanaryStop_keeps (tag : String) (h : J s) :
    (verifying ω symbol J N).Meets (cancelCanaryStop symbol tag) (fun _ s _ => J s) s w := by
  simp only [cancelCanaryStop,Meets.read_bind]
  split
  · exact ⟨⟨h,.inr (.inl trivial),.inl rfl⟩,fun _ _ _ hb => hb.1⟩
  · exact ⟨⟨h,.inr (.inr ⟨rfl,tag,rfl⟩),.inl rfl⟩,fun _ _ _ hb => hb.1⟩

theorem closeCanary_keeps (tag : String) (h : J s) :
    (verifying ω symbol J N).Meets (closeCanary symbol tag) (fun _ s _ => J s) s w := by
  have hagain : ∀ (b : Bool) (s : Runtime) (w : ω), J s → (verifying ω symbol J N).Meets
      (if b then pure () else closeOnce symbol tag) (fun _ s _ => J s) s w := by
    intro b s w h
    split
    · exact h
    · exact ⟨⟨h,.inr (.inl trivial),.inl rfl⟩,fun _ _ _ hb => hb.1⟩
  simp only [closeCanary,Meets.request_bind]
  refine ⟨⟨h,.inr (.inl trivial),.inl rfl⟩,fun cl s₁ w₁ hb₁ => ?_⟩
  exact ⟨⟨hb₁.1,.inl trivial,.inl rfl⟩,fun fresh s₂ w₂ hb₂ => hagain _ s₂ w₂ hb₂.1⟩

theorem abandonCanary_keeps (tag : String) (c : Canary) (h : J s) :
    (verifying ω symbol J N).Meets (abandonCanary symbol tag c) (fun _ s _ => J s) s w := by
  have hclose : ∀ (s : Runtime) (w : ω), J s → (verifying ω symbol J N).Meets
      (Prog.onlyIf c.entered (closeOnce symbol tag)) (fun _ s _ => J s) s w := fun s w h =>
    Meets.onlyIf (fun _ => ⟨⟨h,.inr (.inl trivial),.inl rfl⟩,fun _ _ _ hb => hb.1⟩) fun _ => h
  unfold abandonCanary
  refine Meets.bind (M := fun _ s _ => J s) (Meets.onlyIf (fun _ => ?_) fun _ => h)
    fun _ s₁ w₁ h₁ => hclose s₁ w₁ h₁
  exact Meets.bind (cancelCanaryStop_keeps symbol tag h) fun _ _ _ h => h

theorem proveCanary_keeps (tag : String) (c : Canary) (h : J s) :
    (verifying ω symbol J N).Meets (proveCanary symbol tag c) (fun _ s _ => J s) s w := by
  unfold proveCanary
  split
  · refine Meets.bind (M := fun _ s _ => J s) (Meets.attempt ?_ fun _ _ _ h => h) fun seen s₁ w₁ h₁ => ?_
    · simp only [canaryStopSeen,Meets.read_bind]
      split
      · simp only [Meets.request_bind]
        refine ⟨⟨h,.inl trivial,.inl rfl⟩,fun r _ _ hb => ?_⟩
        cases r <;> exact hb.1
      · exact h
    · split
      · refine Meets.bind (cancelCanaryStop_keeps symbol tag h₁) fun ok s₂ w₂ h₂ => ?_
        split
        · exact closeCanary_keeps symbol tag h₂
        · exact abandonCanary_keeps symbol tag c h₂
      · exact abandonCanary_keeps symbol tag c h₁
  · exact abandonCanary_keeps symbol tag c h

include hJ hN in
/-- A verification leaves threads and intents alone, and sends its own orders only. -/
theorem verifyProtection_keeps (h : J s) (hn : N s) :
    (verifying ω symbol J N).Meets (verifyProtection symbol) (fun _ s _ => J s) s w := by
  have hlast : ∀ (s : Runtime) (w : ω), J s →
      (verifying ω symbol J N).Meets endVerification (fun _ s _ => J s) s w := by
    intro s w h
    have h₁ : J (s.setVerifying false) := hJ s _ rfl rfl h
    refine ⟨⟨rfl,rfl⟩,⟨h₁,.inl trivial,.inl rfl⟩,fun r s₂ _ hb => ?_⟩
    cases r with
    | error e => exact hb.1
    | ok a => exact ⟨⟨rfl,rfl⟩,hJ s₂ _ rfl rfl hb.1⟩
  simp only [verifyProtection,Meets.read_bind]
  split_ifs
  · exact h
  · exact h
  · exact h
  · simp only [Meets.update_bind]
    have h₁ : J (s.setVerifying true) := hJ s _ rfl rfl h
    have hn₁ : N (s.setVerifying true) := hN s _ rfl rfl hn
    refine ⟨⟨rfl,rfl⟩,Meets.bind (M := fun _ s _ => J s)
      (Meets.attempt (enterCanary_keeps symbol _ ⟨h₁,hn₁⟩) fun _ _ _ h => h) fun c s₁ w₁ hc => ?_⟩
    refine Meets.bind (M := fun _ s _ => J s) ?_ fun _ s₂ w₂ h₂ => hlast s₂ w₂ h₂
    cases c with
    | error e => exact hc
    | ok c => exact proveCanary_keeps symbol _ c hc

end
end TradeGate
