import TradeGate.Coop.Guarantee
import TradeGate.Custody.Requests
import TradeGate.Custody.Verify
import TradeGate.Patrol.Unprotected

/-! Entries and orders of unknown fate.  An operation that began when no entry was of unknown fate
sends its own entry only while that is still so, and what is left of it afterwards sends none. -/
namespace TradeGate
open Coop Contract

namespace Runtime

/-- An entry order of unknown fate. -/
def unknownEntry (s : Runtime) : Prop := ∃ i ∈ s.intents.rows, i.kind=.open ∧ i.status=.unknown

instance (s : Runtime) : Decidable s.unknownEntry :=
  inferInstanceAs (Decidable (∃ i ∈ s.intents.rows, i.kind=.open ∧ i.status=.unknown))

theorem unknownEntry_iff {s : Runtime} :
    s.unknownEntry ↔ ∃ id, ∃ i ∈ s.intent id, i.kind=.open ∧ i.status=.unknown :=
  ⟨fun ⟨i,hi,h⟩ => ⟨i.id,i,Keyed.Table.lookup_of_mem hi,h⟩,
    fun ⟨_,i,hi,h⟩ => ⟨i,Keyed.Table.mem_of_lookup hi,h⟩⟩

theorem unknownEntry_congr {s s' : Runtime} (h : s'.intents=s.intents) :
    s'.unknownEntry ↔ s.unknownEntry := by
  unfold unknownEntry
  rw [h]

theorem unknownEntry_saveIntent {s : Runtime} {i : DemoIntent} (h : (s.saveIntent i).unknownEntry) :
    s.unknownEntry ∨ i.kind=.open ∧ i.status=.unknown := by
  obtain ⟨id,j,hj,hk⟩ := unknownEntry_iff.mp h
  rw [intent_saveIntent] at hj
  split at hj
  · cases hj
    exact .inr hk
  · exact .inl (unknownEntry_iff.mpr ⟨id,j,hj,hk⟩)

end Runtime

/-- No entry is sent. -/
def silent (ω : Type) : Contract Runtime ω Writer Call Answer where
  may _ _ q := q.entry?=none
  write _ _ _ _ := True
  back _ _ _ _ _ _ := True

/-- An entry is sent only while no entry is of unknown fate, as long as nobody else loses one before. -/
def withheld (ω : Type) : Contract Runtime ω Writer Call Answer where
  may s _ q := q.entry?=none ∨ ¬s.unknownEntry
  write _ _ _ _ := True
  back s _ q _ s' _ := q.precedesEntry → ¬s.unknownEntry → ¬s'.unknownEntry

/-- Every copy may be stored and every request be sent. -/
def free (ω : Type) : Custody ω where
  inv _ _ := True
  held _ _ _ := True
  known _ _ _ := True
  kin _ _ _ := True
  leg _ _ _ _ := True
  again _ _ _ _ := True
  spent _ _ _ := True
  ticket _ _ _ _ := True
  owned _ _ _ := True
  pairs _ _ _ _ := True
  back _ _ _ _ _ _ := True
  watch := False

section
variable {ω : Type} {s s' : Runtime} {w : ω} {p : Power} {l : Writer} {α : Type} {q : RT α}
  {P : α → Runtime → ω → Prop} {t : StrategyThread} {i : DemoIntent}

/-- Any copy is in hand. -/
theorem free_hand (t : StrategyThread) : (free ω).Hand t Alone s w :=
  ⟨⟨trivial,fun _ hv => hv.elim⟩,offThread_alone _,trivial⟩

theorem free_calm : (free ω).Calm t s := ⟨fun hw => hw.elim,fun hw => hw.elim⟩

/-- Only an opening sends entries. -/
theorem Custody.Plea.noEntry {K : Custody ω} {q : Call} (hp : p ≠ .opening) (h : K.Plea p s w q) :
    q.entry?=none := by
  cases h with
  | asks h => cases q <;> first | rfl | exact h.elim
  | serves t ht h hc => cases q <;> first | rfl | exact h.elim
  | again t cid price ht h hp hc => rw [h]; rfl
  | opens t cid hop => exact absurd hop hp
  | clears h => cases q <;> first | rfl | exact h.elim
  | switches hsw h => rcases h with ⟨kind,rfl⟩|⟨kind,rfl⟩ <;> rfl

theorem withheld_of_silent (h : (silent ω).Meets q P s w) : (withheld ω).Meets q P s w :=
  Meets.weaken h (fun _ _ _ h => .inl h) (fun _ _ _ _ h => h) (fun _ _ _ _ _ _ _ => trivial)
    fun _ _ h => h

/-- No entry is of unknown fate. -/
abbrev Known {α : Type} : α → Runtime → ω → Prop := fun _ s _ => ¬s.unknownEntry

theorem known_saveThread (h : ¬s.unknownEntry) (t : StrategyThread) :
    ¬(s.saveThread t).unknownEntry := h

theorem known_saveIntent (h : ¬s.unknownEntry) (hi : i.status ≠ .unknown) :
    ¬(s.saveIntent i).unknownEntry :=
  fun h' => (Runtime.unknownEntry_saveIntent h').elim h fun hu => hi hu.2

variable [Host]

theorem free_laws : (free ω).Laws p where
  known_of_held _ := trivial
  kin_of_held _ _ := trivial
  kin_plan _ _ := trivial
  back_inv _ _ := trivial
  back_held _ _ _ := trivial
  back_known _ _ _ := trivial
  back_kin _ _ _ := trivial
  back_leg _ _ _ _ := trivial
  back_again _ _ _ := trivial
  back_spent _ _ _ := trivial
  back_ticket _ _ _ _ := trivial
  back_owned _ _ _ := trivial
  back_now hw := hw.elim
  listed _ _ _ := trivial
  reread _ _ := trivial
  takeIntent _ _ := trivial
  takePair _ _ _ _ _ := trivial
  deed_inv _ _ := trivial
  deed_quiet _ _ _ := ⟨id,id⟩
  watch_known hw := hw.elim
  watch_spent hw := hw.elim
  deed_edit _ _ _ _ := trivial
  deed_known _ _ _ _ _ _ := trivial
  deed_mints _ _ _ _ _ := trivial
  deed_create _ _ _ := trivial
  deed_kin _ _ _ := trivial
  deed_leg _ _ _ := trivial
  deed_again _ _ _ := trivial
  deed_spent _ _ _ := trivial
  deed_ticket _ _ _ := trivial
  deed_owned _ _ _ := trivial
  patch_owned _ _ _ := trivial
  propose _ _ _ _ _ := ⟨trivial,trivial,trivial,trivial⟩
  mint _ _ _ _ _ _ _ _ _ := ⟨trivial,fun _ _ _ => trivial,trivial,trivial,trivial,trivial⟩

theorem free_grip (t : StrategyThread) : (free ω).Grip t Alone s w :=
  (free_laws (p := .ordinary)).grip (free_hand t)

theorem silent_of_keeps (hp : p ≠ .opening) (h : (free ω).Keeps p q P s w) :
    (silent ω).Meets q P s w :=
  Meets.weaken h (fun _ _ _ h => h.2.noEntry hp) (fun _ _ _ _ _ => trivial)
    (fun _ _ _ _ _ _ _ => trivial) fun _ _ _ => trivial

/-- An operation that opens nothing sends no entry. -/
theorem Operation.program_silent (o : Operation) (ho : o.power ≠ .opening) :
    (silent ω).Meets o.program (fun _ _ _ => True) s w := by
  refine silent_of_keeps ho ((o.program_keeps free_laws trivial ?_).mono fun _ _ _ _ => trivial)
  exact o.admitted_of_unwatched id (fun _ => trivial) (fun _ _ _ => trivial) fun _ _ _ _ _ _ _ _ => trivial

/-! What is left of an opening once its entry is sent. -/

theorem settleEntry_silent (t cur : StrategyThread) (intent : DemoIntent) (entry : OrderReceipt)
    (placed : Option PlacedLegs) (outcome : OrderOutcome) :
    (silent ω).Meets (settleEntry t cur intent entry placed outcome) (fun _ _ _ => True) s w := by
  simp only [settleEntry,updateIntent,saveThread,Prog.update_bind,Prog.get_bind,Prog.put_bind,
    Prog.pure_eq,Prog.done_bind,Meets.read_bind]
  cases outcome with
  | unknown => exact ⟨trivial,trivial,trivial⟩
  | failed => exact ⟨trivial,trivial,trivial⟩
  | submitted => exact ⟨trivial,trivial,rfl,fun _ _ _ _ => trivial⟩
  | filled =>
    refine ⟨trivial,trivial,Meets.bind (M := fun _ _ _ => True) ?_ fun _ _ _ _ =>
      ⟨rfl,fun _ _ _ _ => trivial⟩⟩
    refine silent_of_keeps (p := .ordinary) (by rintro ⟨⟩) ?_
    exact (free_laws.placeProtection_keeps (free_grip _) placed fun _ _ => trivial).mono
      fun _ _ _ _ => trivial

omit [Host] in
theorem confirmOutcome_silent (t : StrategyThread) (cid : String) (outcome : OrderOutcome) :
    (silent ω).Meets (confirmOutcome t cid outcome) (fun _ _ _ => True) s w := by
  unfold confirmOutcome
  split_ifs
  · simp only [Meets.request_bind]
    refine ⟨rfl,fun _ _ _ _ => ⟨rfl,fun r _ _ _ => ?_⟩⟩
    rcases r with e|_|o <;> trivial
  · trivial

/-! What comes before. -/

omit [Host] in
theorem sizingRefusal_withheld (h : ¬s.unknownEntry) (t : StrategyThread) (intent : DemoIntent)
    (fresh : AccountView) : (withheld ω).Meets (sizingRefusal t intent fresh) Known s w := by
  unfold sizingRefusal
  split_ifs
  · simp only [Meets.request_bind]
    refine ⟨.inl rfl,fun r s₁ w₁ hb => ?_⟩
    cases r with
    | error e => exact hb trivial h
    | ok x => exact ⟨trivial,hb trivial h⟩
  · exact h

omit [Host] in
theorem armRefusal_withheld (h : ¬s.unknownEntry) (t : StrategyThread) :
    (withheld ω).Meets (armRefusal t) Known s w := by
  simp only [armRefusal,Meets.request_bind]
  refine ⟨.inl rfl,fun lev s₁ w₁ hb => ?_⟩
  have h₁ := hb trivial h
  split
  · exact h₁
  · simp only [Meets.request_bind]
    refine ⟨.inl rfl,fun mt s₂ w₂ hb => ?_⟩
    have h₂ := hb trivial h₁
    split <;> exact h₂

omit [Host] in
theorem openingRefusal_withheld (h : ¬s.unknownEntry) (t : StrategyThread) (intent : DemoIntent) :
    (withheld ω).Meets (openingRefusal t intent) Known s w := by
  simp only [openingRefusal,Meets.request_bind]
  refine ⟨.inl rfl,fun r s₁ w₁ hb => ?_⟩
  have h₁ := hb trivial h
  cases r with
  | error e => trivial
  | ok fresh =>
    simp only [orThrow,Prog.done_bind,Meets.update_bind,Meets.read_bind]
    have h₁ : ¬(s₁.setAccount fresh).unknownEntry := h₁
    refine ⟨trivial,?_⟩
    split
    · exact h₁
    · refine Meets.bind (sizingRefusal_withheld h₁ t intent fresh) fun why s₂ w₂ h₂ => ?_
      cases why with
      | some why => exact h₂
      | none => exact armRefusal_withheld h₂ t

theorem submitEntry_withheld (h : ¬s.unknownEntry) (t minted : StrategyThread) (cid : String)
    (intent : DemoIntent) :
    (withheld ω).Meets (submitEntry t minted cid intent) (fun _ _ _ => True) s w := by
  unfold submitEntry
  refine Meets.bind (M := fun _ _ _ => True) ?_ fun x s₁ w₁ _ => withheld_of_silent ?_
  · simp only [sendEntry,Meets.read_bind]
    split
    · exact ⟨.inr h,fun _ _ _ _ => trivial⟩
    · exact ⟨trivial,.inr h,fun _ _ _ _ => trivial⟩
  · simp only [storedOr,saveThread,Prog.read_bind,Prog.get_bind,Prog.pure_eq,Prog.done_bind,Meets.get,
      Prog.update_bind,Meets.put]
    refine ⟨trivial,Meets.bind (confirmOutcome_silent _ _ _) fun _ _ _ _ => ?_⟩
    exact settleEntry_silent _ _ _ _ _ _

theorem executeOpen_withheld (h : ¬s.unknownEntry) (threadIn : StrategyThread) (intent : DemoIntent) :
    (withheld ω).Meets (executeOpen threadIn intent) (fun _ _ _ => True) s w := by
  simp only [executeOpen,storedOr,Prog.pure_eq,Prog.read_bind,Prog.get_bind,Prog.done_bind,Meets.get]
  generalize (s.thread threadIn.id).getD threadIn=t
  split
  · trivial
  · simp only [saveThread,updateIntent,Prog.update_bind,Prog.get_bind,Prog.put_bind,
      Prog.pure_eq,Prog.done_bind,Meets.get,Meets.put]
    refine ⟨trivial,trivial,Meets.bind (openingRefusal_withheld ?_ _ _) fun why s₁ w₁ h₁ => ?_⟩
    · exact known_saveIntent h (by rintro ⟨⟩)
    · cases why with
      | some why => exact ⟨trivial,trivial,trivial⟩
      | none => exact submitEntry_withheld h₁ _ _ _ _

/-! An approval opens nothing unless the intent does. -/
section approval

variable {C : Contract Runtime ω Writer Call Answer} (hw : ∀ s w l s', C.write s w l s')
  (hq : ∀ s w, C.quit s w) (hs : ∀ {q : RT Unit} {s : Runtime},
    (silent ω).Meets q (fun _ _ _ => True) s w → C.Meets q (fun _ _ _ => True) s w)
include hw hq hs

theorem approveIntent_meets {intentId : String}
    (ho : ∀ t, ∀ i ∈ s.intent intentId, i.kind=.open → C.Meets (executeOpen t i) (fun _ _ _ => True) s w) :
    C.Meets (approveIntent intentId) (fun _ _ _ => True) s w := by
  simp only [approveIntent,Meets.read_bind]
  split
  · exact hq _ _
  · next intent hi =>
    split
    · exact hq _ _
    · split
      · exact hq _ _
      · next thread _ =>
        split_ifs
        · exact hq _ _
        · exact hq _ _
        · split
          · next hk => exact ho _ intent hi hk
          · simp only [updateIntent,Prog.update_bind,Prog.get_bind,Prog.put_bind,Prog.pure_eq,
              Prog.done_bind,Meets.get,Meets.put]
            refine ⟨hw _ _ _ _,hs (Meets.bind (M := fun _ _ _ => True) ?_ fun _ _ _ _ => ⟨trivial,trivial⟩)⟩
            refine silent_of_keeps (p := .ordinary) (by rintro ⟨⟩) ?_
            exact (free_laws.closeThreadNow_keeps (free_hand _) free_calm _ _).mono
              fun _ _ _ _ => trivial
          · trivial
        · exact hq _ _

theorem approve_meets {intentId : String} (nonce : Option String) (by_ : Principal)
    (ho : ∀ s₁ : Runtime, s₁.intents=s.intents → ∀ t, ∀ i ∈ s₁.intent intentId, i.kind=.open →
      C.Meets (executeOpen t i) (fun _ _ _ => True) s₁ w) :
    C.Meets (approve intentId nonce by_) (fun _ _ _ => True) s w := by
  simp only [approve,Meets.read_bind]
  split
  · exact hq _ _
  · simp only [Meets.update_bind]
    refine ⟨hw _ _ _ _,Meets.ensure (P := fun _ _ _ => True) ?_ (fun _ _ _ _ => ⟨hw _ _ _ _,trivial⟩)
      fun _ _ _ => ⟨hw _ _ _ _,hq _ _⟩⟩
    have h₁ : (s.setApproving (intentId::s.approving)).intents=s.intents := rfl
    generalize s.setApproving (intentId::s.approving)=s₁ at h₁
    simp only [approveWith,Meets.read_bind]
    split
    · exact hq _ _
    · next intent _ =>
      split
      · exact hq _ _
      · split
        · split
          · exact hq _ _
          · exact approveIntent_meets hw hq hs (ho s₁ h₁)
        · have hi : (s₁.consumeToken nonce .intent intent.id (intentFingerprint intent)).2.intents=s₁.intents :=
            (Custody.Laws.consumeToken_only s₁ _ _ _ _).2
          simp only [Meets.update_bind]
          refine ⟨hw _ _ _ _,?_⟩
          split
          · exact hq _ _
          · exact approveIntent_meets hw hq hs (ho _ (hi.trans h₁))

end approval

theorem approveIntent_withheld (h : ¬s.unknownEntry) (intentId : String) :
    (withheld ω).Meets (approveIntent intentId) (fun _ _ _ => True) s w :=
  approveIntent_meets (fun _ _ _ _ => trivial) (fun _ _ => trivial) withheld_of_silent
    fun t i _ _ => executeOpen_withheld h t i

theorem approve_withheld (h : ¬s.unknownEntry) (intentId : String) (nonce : Option String)
    (by_ : Principal) :
    (withheld ω).Meets (approve intentId nonce by_) (fun _ _ _ => True) s w :=
  approve_meets (fun _ _ _ _ => trivial) (fun _ _ => trivial) withheld_of_silent nonce by_
    fun _ he t i _ _ => executeOpen_withheld (mt (Runtime.unknownEntry_congr he).mp h) t i

theorem known_newIntent (h : ¬s.unknownEntry) (thread : StrategyThread) (principal : Principal)
    (d : IntentDraft) : ¬(s.newIntent thread principal d).2.unknownEntry := by
  refine mt (Runtime.unknownEntry_congr ?_).mp (known_saveIntent h (i := (s.newIntent thread principal d).1)
    nofun)
  unfold Runtime.newIntent
  dsimp only
  split <;> rfl

theorem openThreadFromProposal_withheld (h : ¬s.unknownEntry) (symbol : String) (pr : Proposal)
    (tps : List String) (mark : String) (source : ThreadSource) (force : Bool) :
    (withheld ω).Meets (openThreadFromProposal symbol pr tps mark source force) (fun _ _ _ => True)
      s w := by
  simp only [openThreadFromProposal,Meets.request_bind]
  refine ⟨.inl rfl,fun r s₁ w₁ hb => ?_⟩
  have h₁ := hb trivial h
  cases r with
  | error e => trivial
  | ok rules =>
    simp only [orThrow,Prog.done_bind,Meets.request_bind]
    refine ⟨.inl rfl,fun r s₂ w₂ hb => ?_⟩
    have h₂ := hb trivial h₁
    cases r with
    | error e => trivial
    | ok account =>
      simp only [Prog.done_bind,Meets.update_bind,Meets.read_bind,Meets.request_bind]
      refine ⟨trivial,.inl rfl,fun r s₃ w₃ hb => ?_⟩
      have h₃ := hb trivial h₂
      split
      · trivial
      · generalize computeSizing _ _ _ _ _ _ _ _=sizing
        generalize proposedThread _ _ _ _ _ _=thread
        simp only [saveThread,newIntent,Prog.update_bind,Prog.get_bind,Prog.put_bind,Prog.read_bind,
          Prog.pure_eq,Prog.done_bind,Meets.get,Meets.put]
        refine ⟨trivial,trivial,?_⟩
        split
        · exact ⟨trivial,trivial,trivial⟩
        · split
          · trivial
          · exact executeOpen_withheld (known_newIntent (known_saveThread h₃ _) _ _ _) _ _

theorem applyProposal_withheld (h : ¬s.unknownEntry) (symbol : String) (at_ : ℕ) (pr : Proposal)
    (tps : List String) (mark : String) (gates : Bool) :
    (withheld ω).Meets (applyProposal symbol at_ pr tps mark gates) (fun _ _ _ => True) s w := by
  simp only [applyProposal,Meets.read_bind]
  split
  · exact openThreadFromProposal_withheld h _ _ _ _ _ _
  · trivial

/-- A proposal that a human has to approve sends nothing yet. -/
theorem openThreadFromProposal_silent (symbol : String) (pr : Proposal) (tps : List String)
    (mark : String) {source : ThreadSource} (hs : source ≠ .manual) :
    (silent ω).Meets (openThreadFromProposal symbol pr tps mark source true) (fun _ _ _ => True)
      s w := by
  simp only [openThreadFromProposal,Meets.request_bind]
  refine ⟨rfl,fun r s₁ w₁ _ => ?_⟩
  cases r with
  | error e => trivial
  | ok rules =>
    simp only [orThrow,Prog.done_bind,Meets.request_bind]
    refine ⟨rfl,fun r s₂ w₂ _ => ?_⟩
    cases r with
    | error e => trivial
    | ok account =>
      simp only [Prog.done_bind,Meets.update_bind,Meets.read_bind,Meets.request_bind]
      refine ⟨trivial,rfl,fun r s₃ w₃ _ => ?_⟩
      split
      · trivial
      · generalize computeSizing _ _ _ _ _ _ _ _=sizing
        generalize proposedThread _ _ _ _ _ _=thread
        simp only [saveThread,newIntent,updateIntent,Prog.update_bind,Prog.get_bind,Prog.put_bind,
          Prog.read_bind,Prog.pure_eq,Prog.done_bind,Meets.get,Meets.put]
        refine ⟨trivial,trivial,?_⟩
        split
        · exact ⟨trivial,trivial,trivial⟩
        · rw [if_pos ⟨.inr trivial,hs⟩]
          trivial

/-- A manual close sends nothing but the close. -/
theorem manualOrder_silent (req : ManualOrderRequest) :
    (silent ω).Meets (manualOrder req true) (fun _ _ _ => True) s w := by
  simp only [manualOrder,Meets.read_bind]
  split
  · trivial
  · refine Meets.bind (M := fun _ _ _ => True) ?_ fun mark s₁ w₁ _ => ⟨trivial,?_⟩
    · exact silent_of_keeps (p := .ordinary) (by nofun)
        ((free_laws.knownMark_keeps trivial _).mono fun _ _ _ _ => trivial)
    · exact silent_of_keeps (p := .ordinary) (by nofun)
        ((free_laws.manualClose_keeps trivial _ _ (fun _ _ => trivial) fun _ _ _ hw => hw.elim).mono fun _ _ _ _ => trivial)

/-- A scan that sees an order of unknown fate proposes nothing. -/
theorem applyProposal_silent (h : ∃ i ∈ s.newestIntents 50, i.status=.unknown) (symbol : String)
    (at_ : ℕ) (pr : Proposal) (tps : List String) (mark : String) (gates : Bool) :
    (silent ω).Meets (applyProposal symbol at_ pr tps mark gates) (fun _ _ _ => True) s w := by
  simp only [applyProposal,Meets.read_bind]
  rw [if_neg fun hg => hg.2.2 h]
  trivial

theorem submitManual_withheld (h : ¬s.unknownEntry) (req : ManualOrderRequest) (leverage : ℤ)
    (ref qty : ℚ) (rules : SymbolRules) (account : AccountView) :
    (withheld ω).Meets (submitManual req leverage ref qty rules account) (fun _ _ _ => True) s w := by
  unfold submitManual
  extract_lets maxNotional
  split
  · trivial
  · simp only [Meets.read_bind]
    split
    · trivial
    · simp only [saveThread,newIntent,Prog.update_bind,Prog.get_bind,Prog.put_bind,Prog.read_bind,
        Prog.pure_eq,Prog.done_bind,Meets.get,Meets.put]
      exact ⟨trivial,trivial,executeOpen_withheld (known_newIntent (known_saveThread h _) _ _ _) _ _⟩

theorem manualOpen_withheld (h : ¬s.unknownEntry) (req : ManualOrderRequest) (mark : String) :
    (withheld ω).Meets (manualOpen req mark) (fun _ _ _ => True) s w := by
  simp only [manualOpen,Meets.read_bind]
  split
  · trivial
  · split
    · trivial
    · simp only [Meets.request_bind]
      refine ⟨.inl rfl,fun r s₁ w₁ hb => ?_⟩
      have h₁ := hb trivial h
      cases r with
      | error e => trivial
      | ok rules =>
        simp only [orThrow,Prog.done_bind]
        split
        · trivial
        · refine Meets.bind (M := Known) ?_ fun account s₂ w₂ h₂ => submitManual_withheld h₂ _ _ _ _ _ _
          simp only [knownAccount,Meets.read_bind]
          split
          · exact h₁
          · simp only [Meets.request_bind]
            refine ⟨.inl rfl,fun r s₂ w₂ hb => ?_⟩
            cases r with
            | error e => trivial
            | ok a => exact hb trivial h₁

theorem manualOrder_withheld (h : ¬s.unknownEntry) (req : ManualOrderRequest) :
    (withheld ω).Meets (manualOrder req false) (fun _ _ _ => True) s w := by
  simp only [manualOrder,Meets.read_bind]
  split
  · trivial
  · refine Meets.bind (M := Known) ?_ fun mark s₁ w₁ h₁ => ?_
    · simp only [knownMark,Meets.read_bind]
      split
      · exact h
      · simp only [Meets.request_bind]
        refine ⟨.inl rfl,fun r s₂ w₂ hb => ?_⟩
        cases r with
        | error e => trivial
        | ok mark => exact hb trivial h
    · simp only [Meets.update_bind]
      have h₁ : ¬(s₁.setMarket req.symbol mark).unknownEntry := h₁
      refine ⟨trivial,?_⟩
      split
      · next hc => cases hc
      · exact manualOpen_withheld h₁ req mark

omit [Host] in
/-- A verification that begins while no entry is of unknown fate. -/
theorem verifyProtection_withheld (h : ¬s.unknownEntry) (symbol : String) :
    (withheld ω).Meets (verifyProtection symbol) (fun _ _ _ => True) s w := by
  have hwalk := verifyProtection_keeps (J := fun _ => True) (N := fun s => ¬s.unknownEntry) (w := w)
    symbol (fun _ _ _ _ _ => trivial) (fun _ _ _ hi hn => mt (Runtime.unknownEntry_congr hi).mp hn) trivial h
  exact Meets.weaken hwalk (fun _ _ _ h => h.2.2) (fun _ _ _ _ _ => trivial) (fun _ _ _ _ _ _ hb => ⟨trivial,hb⟩)
    fun _ _ _ => trivial

/-- An operation that begins while no entry is of unknown fate. -/
theorem Operation.program_withheld (o : Operation) (h : ¬s.unknownEntry) :
    (withheld ω).Meets o.program (fun _ _ _ => True) s w := by
  cases o with
  | executeOpen threadId intentId =>
    simp only [program,Meets.read_bind]
    split
    · exact executeOpen_withheld h _ _
    · trivial
  | approveIntent intentId => exact approveIntent_withheld h intentId
  | approve intentId nonce by_ => exact approve_withheld h intentId nonce by_
  | openThreadFromProposal symbol pr tps mark source force =>
    exact openThreadFromProposal_withheld h _ _ _ _ _ _
  | manualOrder req close =>
    cases close
    · exact manualOrder_withheld h req
    · exact withheld_of_silent (manualOrder_silent req)
  | scan symbol at_ pr tps mark gates => exact applyProposal_withheld h _ _ _ _ _ _
  | _ => exact withheld_of_silent (Operation.program_silent _ (by rintro ⟨⟩))

end
end TradeGate

/-! No entry is sent while another one is of unknown fate, in the runs in which the freeze that scans
keep is kept by everyone. -/
namespace TradeGate
open Coop Contract

/-- Whether an operation may send an entry. -/
def Operation.mayEnter : Operation ⊕ Verification → Prop
  | .inl (.executeOpen _ _) | .inl (.approveIntent _) | .inl (.approve _ _ _) | .inl (.scan _ _ _ _ _ _)
  | .inr (.verifyProtection _) => True
  | .inl (.openThreadFromProposal _ _ _ _ source force) => source=.manual ∨ force=false
  | .inl (.manualOrder _ close) => close=false
  | _ => False

/-- Whether it can send one when it starts from the state.  An approval opens what the intent opens, a scan
proposes nothing while one of the newest intents is unknown, and a verification needs a free backend. -/
def Operation.entersFrom (s : Runtime) : Operation ⊕ Verification → Prop
  | .inl (.approveIntent id) | .inl (.approve id _ _) => ∃ i ∈ s.intent id, i.kind=.open
  | .inl (.scan _ _ _ _ _ _) => ¬∃ i ∈ s.newestIntents 50, i.status=.unknown
  | .inr (.verifyProtection _) => s.backend=.agentMcp ∧ s.verifying=false ∧ s.halted=false
  | o => mayEnter o

/-- The freeze is kept: while an entry is of unknown fate no operation that can send one is started, and
when an entry gets lost no other operation that may send one waits for what it asks before. -/
structure Freezes (c : Config Runtime Unit Writer Call Answer String (Operation ⊕ Verification))
    (a : Action Runtime Writer Call Answer String (Operation ⊕ Verification))
    (c' : Config Runtime Unit Writer Call Answer String (Operation ⊕ Verification)) : Prop where
  starts : c.state.unknownEntry → ∀ o ∈ a.op, a.others=c.tasks → ¬Operation.entersFrom c.state o
  loses : ¬c.state.unknownEntry → c'.state.unknownEntry →
    ∀ t ∈ a.others, Operation.mayEnter t.op → ¬t.susp.request.precedesEntry

/-- Entries are sent while none is of unknown fate; an operation that has one to send still relies on
nobody losing one. -/
def frozen (o : Operation ⊕ Verification) : Guarantee Runtime Unit Writer Call Answer where
  may s _ q := q.entry?=none ∨ ¬s.unknownEntry
  write _ _ _ _ := True
  serve _ _ _ _ _ := True
  waits q p p' := Operation.mayEnter o → q.precedesEntry → ¬p.1.unknownEntry → ¬p'.1.unknownEntry
  holds q _ p p' := Operation.mayEnter o → q.precedesEntry → ¬p.1.unknownEntry → ¬p'.1.unknownEntry

section
variable {send : Unit → Call → Unit} {s s' : Runtime} {w w' : Unit} {o : Operation ⊕ Verification}

theorem star_unknownEntry {A B : Prop} (ha : A) (hb : B) {p p' : Runtime×Unit} (h : Relation.ReflTransGen
      (fun p p' : Runtime×Unit => A → B → ¬p.1.unknownEntry → ¬p'.1.unknownEntry) p p') :
    ¬p.1.unknownEntry → ¬p'.1.unknownEntry := by
  induction h with
  | refl => exact id
  | tail _ h ih => exact fun hp => h ha hb (ih hp)

theorem frozen_of_withheld (hm : Operation.mayEnter o) {p : RT Unit}
    (h : (withheld Unit).Meets p (fun _ _ _ => True) s w) :
    (frozen o).Meets send (fun _ _ => True) p s w := by
  refine Meets.weaken h (fun _ _ _ h => h) (fun _ _ _ _ h => h) (fun s w q r s' w' hb => ?_)
    fun _ _ h => h
  obtain ⟨-,⟨s₁,w₁,w₂,h₁,-,h₂⟩,-⟩ := hb
  exact fun hq hs => star_unknownEntry hm hq h₂ (star_unknownEntry hm hq h₁ hs)

theorem frozen_of_silent {p : RT Unit} (h : (silent Unit).Meets p (fun _ _ _ => True) s w) :
    (frozen o).Meets send (fun _ _ => True) p s w :=
  Meets.weaken h (fun _ _ _ h => .inl h) (fun _ _ _ _ h => h) (fun _ _ _ _ _ _ _ => trivial)
    fun _ _ h => h

variable [Host]

/-- An operation that can send no entry from here sends none. -/
theorem Operation.silent_of_not_entersFrom (h : ¬entersFrom s o) :
    (silent Unit).Meets (wholeGateway.program o) (fun _ _ _ => True) s w := by
  cases o with
  | inr v =>
    cases v with
    | verifyProtection symbol =>
      show (silent Unit).Meets (verifyProtection symbol) _ s w
      simp only [verifyProtection,Meets.read_bind]
      split_ifs with h₁ h₂ h₃
      · trivial
      · trivial
      · trivial
      · exact absurd ⟨not_not.mp h₁,Bool.not_eq_true _ ▸ h₂,Bool.not_eq_true _ ▸ h₃⟩ h
  | inl o =>
    show (silent Unit).Meets o.program _ s w
    have hopen : ∀ {id : String} (s₁ : Runtime), s₁.intents=s.intents → (¬∃ i ∈ s.intent id, i.kind=.open) →
        ∀ t, ∀ i ∈ s₁.intent id, i.kind=.open →
          (silent Unit).Meets (TradeGate.executeOpen t i) (fun _ _ _ => True) s₁ w := by
      intro id s₁ he hno t i hi hk
      rw [Runtime.intent,he] at hi
      exact absurd ⟨i,hi,hk⟩ hno
    cases o with
    | executeOpen _ _ => exact absurd trivial h
    | approveIntent id =>
      exact approveIntent_meets (fun _ _ _ _ => trivial) (fun _ _ => trivial) (fun h => h) (hopen s rfl h)
    | approve id nonce by_ =>
      exact approve_meets (fun _ _ _ _ => trivial) (fun _ _ => trivial) (fun h => h) nonce by_
        fun s₁ he => hopen s₁ he h
    | openThreadFromProposal symbol pr tps mark source force =>
      obtain ⟨hs,hf⟩ := not_or.mp h
      rw [Bool.not_eq_false] at hf
      subst hf
      exact openThreadFromProposal_silent symbol pr tps mark hs
    | manualOrder req close =>
      have hc : close=true := Bool.not_eq_false _ ▸ h
      subst hc
      exact manualOrder_silent req
    | scan symbol at_ pr tps mark gates =>
      exact applyProposal_silent (not_not.mp h) symbol at_ pr tps mark gates
    | _ => exact Operation.program_silent _ (by nofun)

/-- An operation that may send an entry, begun while none is of unknown fate. -/
theorem Operation.withheld_of_known (h : ¬s.unknownEntry) :
    (withheld Unit).Meets (wholeGateway.program o) (fun _ _ _ => True) s w := by
  cases o with
  | inl o => exact o.program_withheld h
  | inr v =>
    cases v with
    | verifyProtection symbol => exact verifyProtection_withheld h symbol

omit [Host] in
/-- What may send no entry sends none, from wherever it starts. -/
theorem Operation.not_entersFrom (h : ¬mayEnter o) : ¬entersFrom s o := by
  cases o with
  | inl o => cases o <;> first | exact h | exact absurd trivial h
  | inr v => cases v with
    | verifyProtection symbol => exact absurd trivial h

theorem frozen_governs : Guarantee.Governs frozen (fun _ _ => True) wholeGateway Freezes where
  start o s w ts c' _ ha := by
    by_cases hm : Operation.mayEnter o
    · by_cases h : s.unknownEntry
      · exact frozen_of_silent (Operation.silent_of_not_entersFrom (ha.starts h o rfl rfl))
      · exact frozen_of_withheld hm (Operation.withheld_of_known h)
    · exact frozen_of_silent (Operation.silent_of_not_entersFrom (Operation.not_entersFrom hm))
  serve _ _ _ _ _ _ _ _ _ _ _ _ := trivial
  inv _ _ _ _ _ _ _ := trivial
  others c a c' _ hs ha hw t ht := by
    refine .inl ?_
    have hloses := fun hn hu => ha.loses hn hu t ht
    cases ht : t.susp with
    | waiting q k =>
      rw [ht] at hloses
      exact fun hm hq hn hu => hloses hn hu hm hq
    | served q r k =>
      rw [ht] at hloses
      exact fun hm hq hn hu => hloses hn hu hm hq

/-- In a run in which the freeze is kept, no step sends an entry while an entry is of unknown
fate. -/
theorem no_entry_while_unknown {s₀ : Runtime}
    {c c' : Config Runtime Unit Writer Call Answer String (Operation ⊕ Verification)}
    {a : Action Runtime Writer Call Answer String (Operation ⊕ Verification)}
    (h : Run wholeGateway Freezes ⟨s₀,(),[]⟩ c) (hs : Step wholeGateway c a c') (ha : Freezes c a c')
    (he : (a.sent.bind Call.entry?).isSome) : ¬c'.state.unknownEntry := by
  have hc := frozen_governs.run ⟨trivial,by simp⟩ h
  obtain ⟨req,hreq⟩ := Option.isSome_iff_exists.mp he
  obtain ⟨q,hq,hreq⟩ := Option.bind_eq_some_iff.mp hreq
  obtain ⟨o,hop,-⟩|⟨-,-,hsent,-⟩|⟨-,-,hsent,-⟩ := hs.kind
  · rcases (hc.owed frozen_governs hs ha).sent o hop q hq with hn|hn
    · rw [hn] at hreq
      cases hreq
    · exact hn
  · rw [hsent] at hq
    cases hq
  · rw [hsent] at hq
    cases hq

end

/-- The entry order that a step sends. -/
def sentEntry (a : Action Runtime Writer Call Answer String Operation) : Option EntryRequest :=
  a.sent.bind Call.entry?

section scripts

/-- A market order of the panel for one unit. -/
def panelOrder (symbol : String) : ManualOrderRequest where
  symbol := symbol
  side := .long
  type := .market
  price := none
  marginUsdt := none
  leverage := none
  qty := some "1"
  tp := none
  sl := some "90"
  marginMode := none

/-- A flat account and a market that answers; what becomes of an order is not known. -/
def flatAnswer : (q : Call) → Answer q
  | .marketView _ _ => .ok "100"
  | q => { replies with account := .ok ⟨.demo,"1000",[],[]⟩ : Replies }.answer q

/-- Delivered answers. -/
def answered : ℕ → List (Move Runtime Unit Call Answer Operation)
  | 0 => []
  | n+1 => .serve 0 flatAnswer id::.resume 0::answered n

/-- An order of the panel, up to the answer after which its entry is sent; the account may be in the
cache. -/
def panelMoves (symbol : String) (cached : Bool) : List (Move Runtime Unit Call Answer Operation) :=
  .start (.manualOrder (panelOrder symbol) false)::
    (answered (if cached then 4 else 5)++[.serve 0 flatAnswer id])

/-- The entry of one order gets lost, and another order is placed. -/
def secondOrderMoves : List (Move Runtime Unit Call Answer Operation) :=
  panelMoves "BTCUSDT" false++.resume 0::(answered 3++panelMoves "ETHUSDT" true)

theorem timely_answered (n : ℕ) : (answered n).Forall Timely := by
  induction n with
  | zero => trivial
  | succ n ih => exact List.forall_cons _ _ _ |>.mpr ⟨trivial,List.forall_cons _ _ _ |>.mpr ⟨trivial,ih⟩⟩

theorem timely_panelMoves (symbol : String) (cached : Bool) :
    (panelMoves symbol cached).Forall Timely :=
  List.forall_cons _ _ _ |>.mpr ⟨trivial,List.forall_append.mpr ⟨timely_answered _,trivial⟩⟩

theorem timely_secondOrderMoves : secondOrderMoves.Forall Timely :=
  List.forall_append.mpr ⟨timely_panelMoves _ _,List.forall_cons _ _ _ |>.mpr ⟨trivial,
    List.forall_append.mpr ⟨timely_answered 3,timely_panelMoves _ _⟩⟩⟩

/-- What a script of all operations leads to from an empty store. -/
def wholeAfter (backend : Backend) (ms : List (Move Runtime Unit Call Answer (Operation ⊕ Verification))) :
    Config Runtime Unit Writer Call Answer String (Operation ⊕ Verification) :=
  letI := oneDigest
  (Config.mk (Runtime.fresh backend someWorkflow 100000000) () []).play wholeGateway ms

/-- A poll reads the account while the order of the panel is on its way. -/
def polledMoves : List (Move Runtime Unit Call Answer (Operation ⊕ Verification)) :=
  (panelMoves "BTCUSDT" false).map .own++[.start (.inl .poll)]

theorem timely_own {ms : List (Move Runtime Unit Call Answer Operation)} (h : ms.Forall Timely) :
    (ms.map .own : List (Move Runtime Unit Call Answer (Operation ⊕ Verification))).Forall Timely := by
  rw [List.forall_map_iff]
  exact h.imp fun m hm => by cases m <;> exact hm

theorem timely_polledMoves : polledMoves.Forall Timely :=
  List.forall_append.mpr ⟨timely_own (timely_panelMoves _ _),trivial⟩

end scripts

/-- The entry of a panel order is sent while a poll waits for the account. -/
theorem entry_sent_beside_poll : letI := oneDigest
    (((wholeAfter .demo polledMoves).act wholeGateway (.resume 0)).sent.bind Call.entry?).isSome ∧
      ((wholeAfter .demo polledMoves).act wholeGateway (.resume 0)).others.map Task.op=[.inl .poll] ∧
      ¬((wholeAfter .demo polledMoves).move wholeGateway (.resume 0)).state.unknownEntry := by
  let := oneDigest
  have hok : ∀ c a c', decide (¬Runtime.unknownEntry c.state ∧ ¬Runtime.unknownEntry c'.state)=true →
      Freezes c a c' := fun c a c' h =>
    ⟨fun hn => absurd hn (of_decide_eq_true h).1,fun _ hn => absurd hn (of_decide_eq_true h).2⟩
  have h : Run wholeGateway Freezes _ (wholeAfter .demo polledMoves) :=
    .of_along .refl (wholeGateway_legalPlay timely_polledMoves _) (by decide +kernel) hok
  have hs : Step wholeGateway (wholeAfter .demo polledMoves) _ _ :=
    .of_applies (m := .resume 0) trivial (by decide +kernel)
  have hsent : (((wholeAfter .demo polledMoves).act wholeGateway (.resume 0)).sent.bind Call.entry?).isSome := by
    decide +kernel
  exact ⟨hsent,by decide +kernel,no_entry_while_unknown h hs (hok _ _ _ (by decide +kernel)) hsent⟩

/-- An order of the panel sends its entry while the entry of another one is of unknown fate. -/
theorem entry_sent_while_unknown : ¬∀ (h : Host) (backend : Backend) (workflow : Workflow) (now : ℕ)
    (c c' : Config Runtime Unit Writer Call Answer String (Operation ⊕ Verification))
    (a : Action Runtime Writer Call Answer String (Operation ⊕ Verification)),
      Run (@wholeGateway h) anyStep ⟨Runtime.fresh backend workflow now,(),[]⟩ c →
        Step (@wholeGateway h) c a c' → (a.sent.bind Call.entry?).isSome → ¬c'.state.unknownEntry := by
  intro hall
  let := oneDigest
  have h : Run wholeGateway anyStep _ (wholeAfter .demo (secondOrderMoves.map .own)) :=
    .of_play .refl (wholeGateway_legalPlay (timely_own timely_secondOrderMoves) _)
  have hs : Step wholeGateway (wholeAfter .demo (secondOrderMoves.map .own)) _ _ :=
    .of_applies (m := .resume 0) trivial (by decide +kernel)
  exact hall oneDigest _ _ _ _ _ _ h hs (by decide +kernel) (by decide +kernel)

end TradeGate
