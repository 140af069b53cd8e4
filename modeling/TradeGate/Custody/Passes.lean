import TradeGate.Custody.Moves

/-! The protection of a thread and the passes of the account poll, as deeds of a custody. -/
namespace TradeGate
open Coop Contract

variable {ω : Type} {K : Custody ω} [Host] {s : Runtime} {w : ω} {p : Power} {t u : StrategyThread}
  {G : StrategyThread → Prop}

namespace Custody

/-- Every request, write and failure of the program is as the custody allows, and `P` holds where it
ends. -/
abbrev Keeps (K : Custody ω) (p : Power) {α : Type} (q : RT α) (P : α → Runtime → ω → Prop)
    (s : Runtime) (w : ω) : Prop := (K.contract p).Meets q P s w

/-- Only the copies beside are left in hand. -/
abbrev Rest (K : Custody ω) (G : StrategyThread → Prop) {α : Type} : α → Runtime → ω → Prop :=
  fun _ s w => K.Has G s w

/-- In hand a copy of which a stop may be placed once more. -/
structure Stopping (K : Custody ω) (t : StrategyThread) (G : StrategyThread → Prop)
    (stopId : String) (s : Runtime) (w : ω) : Prop extends K.Hand t G s w where
  sure : K.Sure t s
  again : K.again t.id stopId s w

namespace Laws

variable (hK : K.Laws p)
include hK

/-- An edit with which the thread leaves the hand. -/
theorem save_rest {l : Writer} (h : K.Hand t G s w) (he : K.Edit l s w t u) :
    K.Keeps p (saveThread l u) (K.Rest G) s w :=
  ⟨.deed h.inv (.edit h.copy he),hK.has_edit h he⟩

theorem end_bind {α : Type} {P : α → Runtime → ω → Prop} {l : Writer} {k : Unit → RT α}
    (h : K.Hand t G s w) (he : K.Edit l s w t u)
    (hk : K.Has G (s.saveThread u) w → K.Keeps p (k ()) P (s.saveThread u) w) :
    K.Keeps p (saveThread l u >>= k) P s w :=
  ⟨.deed h.inv (.edit h.copy he),hk (hK.has_edit h he)⟩

/-- The copy is stored and stays in hand. -/
theorem save_bind {α : Type} {P : α → Runtime → ω → Prop} {l : Writer} {k : Unit → RT α}
    (h : K.Hand t G s w) (he : K.Edit l s w t u) (hu : u.ended → t.ended)
    (hk : K.Hand u G (s.saveThread u) w → K.Keeps p (k ()) P (s.saveThread u) w) :
    K.Keeps p (saveThread l u >>= k) P s w :=
  ⟨.deed h.inv (.edit h.copy he),hk (hK.hand_edit h he hu)⟩

/-- A leg id is taken and the copy stored. -/
theorem mint_bind {α : Type} {P : α → Runtime → ω → Prop} {l : Writer} {k : Unit → RT α} (leg : Leg)
    (h : K.Hand t G s w) (hf : K.Firm t s)
    (hk : K.Hand (nextLegCid t leg).2 G (s.saveThread (nextLegCid t leg).2) w →
      K.leg t.id (nextLegCid t leg).1 (s.saveThread (nextLegCid t leg).2) w →
      K.Keeps p (k ()) P (s.saveThread (nextLegCid t leg).2) w) :
    K.Keeps p (saveThread l (nextLegCid t leg).2 >>= k) P s w :=
  hK.save_bind h (.mint hf leg) id fun h' =>
    hk h' (hK.deed_mints h.inv h.copy (.mint (l := l) hf leg) (Nat.lt_succ_self _) le_rfl)

/-- A request, and the program after it. -/
theorem ask_bind {α : Type} {P : α → Runtime → ω → Prop} {q : Call} {k : Answer q → RT α}
    (h : K.Hand t G s w) (hq : K.Plea p s w q)
    (hk : ∀ r s' w', K.back s w q r s' w' → K.Hand t G s' w' → K.Keeps p (k r) P s' w') :
    K.Keeps p (ask q >>= k) P s w :=
  ⟨⟨h.inv,hq⟩,fun r s' w' hb => hk r s' w' hb (hK.hand_back h hb)⟩

theorem resolve_rest (h : K.Has G s w) {fallback : IntentStatus} (hf : fallback.certain)
    (t : StrategyThread) :
    K.Keeps p (Prog.update .intent (·.resolveOpenIntents t fallback)) (K.Rest G) s w :=
  ⟨.deed h.inv (.resolveOpen hf),hK.has_of_deed (l := .intent) (p := p) h (.resolveOpen hf)
    fun v _ => .of_threads (Runtime.threads_resolveOpenIntents _ _ _) v.id⟩

theorem saveProtected_keeps (h : K.Grip t G s w) (ids : List String) :
    K.Keeps p (saveProtected t ids) (K.Rest G) s w := by
  simp only [saveProtected,storedOr,Prog.pure_eq]
  refine hK.save_rest (hK.hand_stored h) (.note (.getD t) rfl le_rfl rfl fun hf => ?_)
  exact (Option.filter_eq_some_iff.mp hf).1

theorem compensate_keeps (h : K.Hand t G s w) (hs : K.Sure t s) :
    K.Keeps p (compensate t) (K.Rest G) s w := by
  unfold compensate
  refine hK.mint_bind .x h hs.firm fun h hl => ?_
  refine hK.ask_bind h (.serves _ (hK.kin h) rfl (List.forall_mem_singleton.mpr hl)) ?_
  intro c s₁ w₁ hb h₁
  have hs₁ : K.Sure (nextLegCid t .x).2 s₁ := hK.sure_back h.inv hs hb
  simp only [Meets.read_bind]
  split
  · refine hK.end_bind h₁ ⟨rfl,le_rfl,hs₁.firm,.ended rfl (.inl rfl) (.inl rfl) (.inl rfl) ?_⟩ fun h₂ =>
      hK.resolve_rest h₂ certain_filled _
    exact fun hw => .inr (.inr (.inr (hs₁ hw).not_inFlight))
  · exact hK.save_rest h₁ (.flag hs₁.firm (by rintro ⟨⟩) _)

theorem placeTakeProfitLeg_keeps (h : K.Hand t G s w) (hs : K.Sure t s) (ids : List String)
    (placed : Option PlacedLegs) : K.Keeps p (placeTakeProfitLeg t ids placed) (K.Rest G) s w := by
  unfold placeTakeProfitLeg
  split
  · exact hK.saveProtected_keeps (hK.grip h) ids
  · next tp0 htp =>
    split
    · exact hK.saveProtected_keeps (hK.grip h) ids
    · split
      · exact hK.save_bind h (.same hs.firm) id fun h => hK.saveProtected_keeps (hK.grip h) _
      · refine hK.mint_bind .t h hs.firm fun h hl => ?_
        refine hK.ask_bind h (.serves _ (hK.kin h) ⟨rfl,rfl,htp⟩ (List.forall_mem_singleton.mpr hl)) ?_
        exact fun tp s₁ w₁ _ h => hK.saveProtected_keeps (hK.grip h) _

theorem settleStop_keeps (h : K.Hand t G s w) (hs : K.Sure t s) (stopId : String)
    (ids : List String) (placed : Option PlacedLegs) (stop : OrderReceipt) :
    K.Keeps p (settleStop t stopId ids placed stop) (K.Rest G) s w := by
  unfold settleStop
  extract_lets stop'
  split
  · exact hK.compensate_keeps h hs
  · exact hK.placeTakeProfitLeg_keeps h hs _ _

theorem stopping_back {stopId : String} {q : Call} {r : Answer q} {s' : Runtime} {w' : ω}
    (h : K.Stopping t G stopId s w) (hq : q.places=[]) (hb : K.back s w q r s' w') :
    K.Stopping t G stopId s' w' :=
  ⟨hK.hand_back h.toHand hb,hK.sure_back h.inv h.sure hb,
    hK.back_again h.inv hb (.inl ⟨h.again,by rw [hq]; nofun⟩)⟩

theorem stopSeen_keeps {stopId : String} (h : K.Stopping t G stopId s w) :
    K.Keeps p (stopSeen t stopId) (fun _ s w => K.Stopping t G stopId s w) s w := by
  simp only [stopSeen,Meets.read_bind]
  split
  · refine ⟨⟨h.inv,.asks trivial⟩,fun r s₁ w₁ hb => ?_⟩
    have h₁ := hK.stopping_back h rfl hb
    cases r <;> exact h₁
  · refine ⟨⟨h.inv,.asks trivial⟩,fun r s₁ w₁ hb => ?_⟩
    have h₁ := hK.stopping_back h rfl hb
    rcases r with e|_|o <;> exact h₁

theorem resendStop_keeps {stopId price : String} (h : K.Stopping t G stopId s w)
    (hp : t.stopPrice=some price) :
    K.Keeps p (resendStop t price stopId) (fun _ s w => K.Hand t G s w ∧ K.Sure t s) s w := by
  simp only [resendStop,Meets.request_bind]
  refine ⟨⟨h.inv,.again t stopId price (hK.kin h.toHand) rfl hp h.again⟩,fun r s₁ w₁ hb => ?_⟩
  have h₁ : K.Hand t G s₁ w₁ ∧ K.Sure t s₁ := ⟨hK.hand_back h.toHand hb,hK.sure_back h.inv h.sure hb⟩
  split_ifs <;> exact h₁

theorem confirmStop_keeps {price stopId : String} (h : K.Stopping t G stopId s w)
    (hp : t.stopPrice=some price) (ids : List String) (placed : Option PlacedLegs)
    (stop : OrderReceipt) : K.Keeps p (confirmStop t price stopId ids placed stop) (K.Rest G) s w := by
  unfold confirmStop
  split
  · refine Meets.bind (hK.stopSeen_keeps h) fun seen s₁ w₁ h₁ => ?_
    match seen with
    | none => exact hK.save_rest h₁.toHand (.flag h₁.sure.firm (by nofun) _)
    | some true => exact hK.settleStop_keeps h₁.toHand h₁.sure _ _ _ _
    | some false =>
      exact Meets.bind (hK.resendStop_keeps h₁ hp) fun r s₂ w₂ h₂ =>
        hK.settleStop_keeps h₂.1 h₂.2 _ _ _ _
  · exact hK.settleStop_keeps h.toHand h.sure _ _ _ _

theorem placeStopLeg_keeps {price : String} (h : K.Hand t G s w) (hs : K.Sure t s)
    (hp : t.stopPrice=some price) (ids : List String) (placed : Option PlacedLegs)
    (ha : ∀ l ∈ placed, K.again t.id l.stop.1 s w) :
    K.Keeps p (placeStopLeg t price ids placed) (K.Rest G) s w := by
  unfold placeStopLeg
  cases placed with
  | some l =>
    refine hK.save_bind h (.same hs.firm) id fun h' => ?_
    have hd : K.Deed p .protection s w (s.saveThread t) := .edit h.copy (.same hs.firm)
    exact hK.confirmStop_keeps ⟨h',hs,hK.deed_again h.inv hd (ha l rfl)⟩ hp _ _ _
  | none =>
    refine hK.mint_bind .s h hs.firm fun h hl => ?_
    refine hK.ask_bind h (.serves _ (hK.kin h) ⟨rfl,rfl,hp⟩ (List.forall_mem_singleton.mpr hl)) ?_
    intro stop s₁ w₁ hb h₁
    exact hK.confirmStop_keeps ⟨h₁,hK.sure_back h.inv hs hb,hK.back_again h.inv hb (.inr ⟨hl,rfl⟩)⟩ hp _ _ _

theorem protectThread_keeps (h : K.Hand t G s w) (hs : K.Sure t s) (placed : Option PlacedLegs)
    (ha : ∀ l ∈ placed, K.again t.id l.stop.1 s w) :
    K.Keeps p (protectThread t placed) (K.Rest G) s w := by
  unfold protectThread
  extract_lets known ids
  split
  · exact hK.placeTakeProfitLeg_keeps h hs _ _
  · next hp => exact hK.placeStopLeg_keeps h hs (Option.filter_eq_some_iff.mp hp).1 _ _ ha

theorem placeProtection_keeps (h : K.Grip t G s w) (placed : Option PlacedLegs)
    (ha : ∀ l ∈ placed, K.again t.id l.stop.1 s w) :
    K.Keeps p (placeProtection t placed) (K.Rest G) s w := by
  simp only [placeProtection,Meets.read_bind]
  split
  · exact h.toHas
  · next hst =>
    rw [not_or,not_not] at hst
    split
    · exact h.toHas
    · have hd : K.Deed p .protection s w (s.noteProtectionTry t.id) :=
        .aside rfl rfl rfl (.inl rfl) (.inl rfl) (.same rfl rfl)
      have h₁ := hK.grip_of_deed h hd (.of_threads rfl)
      have hsure : K.Sure t (s.noteProtectionTry t.id) := .of_status (by rw [hst.1]; rintro ⟨⟩)
      refine ⟨.deed h.inv hd,?_⟩
      exact hK.protectThread_keeps (hK.hand_stored h₁) (hK.sure_stored h₁ hsure) placed
        fun l hl => by rw [id_getD_thread]; exact hK.deed_again h.inv hd (ha l hl)

end Laws
end Custody
end TradeGate
