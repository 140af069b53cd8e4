import TradeGate.Coop.Contract
import TradeGate.Model.Opening

/-! What the opening of a thread writes and asks.  Its protection writes as a protection or for the
intents, the rest never as a proposal, and only the lookup of an unknown receipt sleeps. -/
namespace TradeGate
open Coop

def Call.sleeps : Call → Prop
  | .sleep _ => True
  | _ => False

section
variable {L : Writer → Prop} {A : Call → Prop}

theorem storedOr_within (t : StrategyThread) : (storedOr t).Within L A := .read fun _ => trivial

section protection
variable (hL : ∀ l, l=.protection ∨ l=.intent → L l)
include hL

theorem updateIntent_within (i : DemoIntent) (f : DemoIntent → DemoIntent) :
    (updateIntent i f).Within L A := .bind (.update (hL _ (.inr rfl)) _) fun _ => trivial

theorem newIntent_within [Host] (t : StrategyThread) (who : Principal) (d : IntentDraft) :
    (newIntent t who d).Within L A :=
  .read fun _ => .bind (.update (hL _ (.inr rfl)) _) fun _ => trivial

theorem saveProtected_within (t : StrategyThread) (ids : List String) :
    (saveProtected t ids).Within L A :=
  .bind (storedOr_within t) fun _ => .read fun _ => .update (hL _ (.inl rfl)) _

end protection

section
variable (hA : ∀ q, ¬q.sleeps → A q)
include hA

theorem stopSeen_within (t : StrategyThread) (stopId : String) : (stopSeen t stopId).Within L A := by
  refine .read fun s => ?_
  split
  · exact .bind (.request (hA _ id)) fun r => by cases r <;> trivial
  · refine .bind (.request (hA _ id)) fun r => ?_
    split <;> trivial

theorem resendStop_within (t : StrategyThread) (price stopId : String) :
    (resendStop t price stopId).Within L A := by
  refine .bind (.request (hA _ id)) fun r => ?_
  split
  · trivial
  · split <;> trivial

variable [Host] (hL : ∀ l, l=.protection ∨ l=.intent → L l)
include hL

theorem compensate_within (t : StrategyThread) : (compensate t).Within L A := by
  unfold compensate
  refine .bind (.update (hL _ (.inl rfl)) _) fun _ => .bind (.request (hA _ id)) fun c => .read fun s => ?_
  split
  · exact .bind (.update (hL _ (.inl rfl)) _) fun _ => .update (hL _ (.inr rfl)) _
  · exact .update (hL _ (.inl rfl)) _

theorem placeTakeProfitLeg_within (t : StrategyThread) (ids : List String)
    (placed : Option PlacedLegs) : (placeTakeProfitLeg t ids placed).Within L A := by
  unfold placeTakeProfitLeg settleTakeProfit
  split
  · exact saveProtected_within hL t ids
  · split
    · exact saveProtected_within hL t ids
    · split
      · exact .bind (.update (hL _ (.inl rfl)) _) fun _ => saveProtected_within hL _ _
      · exact .bind (.update (hL _ (.inl rfl)) _) fun _ => .bind (.request (hA _ id)) fun _ =>
          saveProtected_within hL _ _

theorem settleStop_within (t : StrategyThread) (stopId : String) (ids : List String)
    (placed : Option PlacedLegs) (stop : OrderReceipt) :
    (settleStop t stopId ids placed stop).Within L A := by
  unfold settleStop
  extract_lets stop
  split
  · exact compensate_within hA hL t
  · exact placeTakeProfitLeg_within hA hL t _ placed

theorem confirmStop_within (t : StrategyThread) (price stopId : String) (ids : List String)
    (placed : Option PlacedLegs) (stop : OrderReceipt) :
    (confirmStop t price stopId ids placed stop).Within L A := by
  unfold confirmStop
  split
  · refine .bind (stopSeen_within hA t stopId) fun seen => ?_
    split
    · exact .read fun s => .update (hL _ (.inl rfl)) _
    · exact settleStop_within hA hL _ _ _ _ _
    · exact .bind (resendStop_within hA t price stopId) fun _ => settleStop_within hA hL _ _ _ _ _
  · exact settleStop_within hA hL _ _ _ _ _

theorem placeProtection_within (t : StrategyThread) (placed : Option PlacedLegs) :
    (placeProtection t placed).Within L A := by
  refine .read fun s => ?_
  split
  · trivial
  · split
    · trivial
    · refine .bind (.update (hL _ (.inl rfl)) _) fun _ => .bind (storedOr_within t) fun t => ?_
      unfold protectThread
      dsimp only
      split
      · exact placeTakeProfitLeg_within hA hL t _ placed
      · unfold placeStopLeg
        refine .bind (.update (hL _ (.inl rfl)) _) fun _ => .bind ?_ fun _ =>
          confirmStop_within hA hL _ _ _ _ _ _
        unfold stopReceipt
        split
        · trivial
        · exact .request (hA _ id)

end

section
variable (hA : ∀ q, ¬q.sleeps → A q) (hL : ∀ l, l ≠ .propose → L l)
include hL

theorem protection_or_intent (l : Writer) (h : l=.protection ∨ l=.intent) : L l :=
  hL l (by cases h with | inl h => rw [h]; decide | inr h => rw [h]; decide)

theorem abortOpen_within (t : StrategyThread) (i : DemoIntent) (why : String) :
    (abortOpen t i why).Within L A :=
  .bind (updateIntent_within (protection_or_intent hL) _ _) fun _ => .bind (storedOr_within t) fun _ =>
    .read fun _ => .update (hL _ (by decide)) _

include hA

theorem openingRefusal_within (t : StrategyThread) (i : DemoIntent) :
    (openingRefusal t i).Within L A := by
  refine .bind (.request (hA _ id)) fun r => .bind ?_ fun fresh =>
    .bind (.update (hL _ (by decide)) _) fun _ => .read fun s => ?_
  · cases r <;> trivial
  · dsimp only
    split
    · trivial
    · refine .bind ?_ fun why => ?_
      · unfold sizingRefusal
        split
        · refine .bind (.request (hA _ id)) fun r => ?_
          cases r with
          | error e => trivial
          | ok m => exact .bind (.update (hL _ (by decide)) _) fun _ => .read fun _ => trivial
        · trivial
      · cases why with
        | some why => trivial
        | none =>
          refine .bind (.request (hA _ id)) fun lev => ?_
          split
          · trivial
          · refine .bind (.request (hA _ id)) fun mt => ?_
            split
            · trivial
            · exact .read fun _ => trivial

variable [Host]

theorem sendEntry_within (t minted : StrategyThread) (cid : String) :
    (sendEntry t minted cid).Within L A := by
  refine .read fun s => ?_
  dsimp only
  split
  · exact .bind (.request (hA _ id)) fun _ => trivial
  · exact .bind (.update (hL _ (by decide)) _) fun _ => .bind (.request (hA _ id)) fun _ => trivial

theorem settleEntry_within (t cur : StrategyThread) (i : DemoIntent) (entry : OrderReceipt)
    (placed : Option PlacedLegs) (outcome : OrderOutcome) :
    (settleEntry t cur i entry placed outcome).Within L A := by
  have hp := protection_or_intent hL
  refine .read fun s => ?_
  dsimp only
  cases outcome with
  | unknown => exact .bind (updateIntent_within hp _ _) fun _ => .update (hL _ (by decide)) _
  | failed => exact .bind (updateIntent_within hp _ _) fun _ => .update (hL _ (by decide)) _
  | filled =>
    exact .bind (updateIntent_within hp _ _) fun _ => .bind (.update (hL _ (by decide)) _) fun _ =>
      .bind (placeProtection_within hA hp _ _) fun _ => .request (hA _ id)
  | submitted =>
    exact .bind (updateIntent_within hp _ _) fun _ => .bind (.update (hL _ (by decide)) _) fun _ =>
      .request (hA _ id)

/-- The entry of a thread and its protection are not signed as a proposal. -/
theorem executeOpen_within (hs : ∀ ms, A (.sleep ms)) (t : StrategyThread) (i : DemoIntent) :
    (executeOpen t i).Within L A := by
  refine .bind (storedOr_within t) fun t => ?_
  split
  · trivial
  · refine .read fun s => .bind (.update (hL _ (by decide)) _) fun _ =>
      .bind (updateIntent_within (protection_or_intent hL) _ _) fun i =>
        .bind (openingRefusal_within hA hL t i) fun why => ?_
    cases why with
    | some why => exact abortOpen_within hL t i why
    | none =>
      refine .bind (sendEntry_within hA hL _ _ _) fun r => .bind (storedOr_within t) fun c =>
        .read fun s => .bind (.update (hL _ (by decide)) _) fun _ => .bind (storedOr_within t) fun cur =>
          .bind ?_ fun _ => settleEntry_within hA hL _ _ _ _ _ _
      unfold confirmOutcome
      split
      · refine .bind (.request (hs _)) fun _ => .bind (.request (hA _ id)) fun r => ?_
        split <;> trivial
      · trivial

end
end
end TradeGate
