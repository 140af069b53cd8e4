import TradeGate.Custody.Opening

/-! The requests of a user and the operations of the gateway, as deeds of a custody. -/
namespace TradeGate
open Coop Contract

variable {ω : Type} {K : Custody ω} {s s' : Runtime} {w w' : ω} {p : Power} {l : Writer}
  {t u : StrategyThread} {G : StrategyThread → Prop} {i : DemoIntent}

namespace Custody

/-! What an ordinary method does, every method may do. -/
section raise

theorem Deed.raise (h : K.Deed .ordinary l s w s') : K.Deed p l s w s' := by
  obtain ⟨ht,hi,hn,hb,hh,hbooks⟩ := h
  refine ⟨?_,?_,hn,.inl (hb.resolve_right nofun),.inl (hh.resolve_right nofun),hbooks⟩
  · cases ht with
    | same h => exact .same h
    | jot t ids ht h => exact .jot t ids ht h
    | edit t u ht he h => exact .edit t u ht he h
    | create t hc h => exact .create t hc h
    | reject t u ht plan hu flag legs hl calm h => exact .reject t u ht plan hu flag legs hl calm h
  · cases hi with
    | same h => exact .same h
    | add i hid hs hc hk h => exact .add i hid hs hc hk h
    | patch i j hi ht hk hs h =>
      exact .patch i j hi ht (fun h => .inr ((hk h).resolve_left nofun)) hs h
    | resolve f ht hc hs h => exact .resolve f ht hc hs h

variable [Host]

theorem Stroke.raise (h : K.Stroke .ordinary l s w s') : K.Stroke p l s w s' := by
  cases h with
  | deed inv h => exact .deed inv h.raise
  | proposes t hp => cases hp
  | draws s₀ t i hp => cases hp
  | takes t u hp => cases hp
  | approves s₀ t u i j hp => cases hp

omit [Host] in
theorem Plea.raise {q : Call} (h : K.Plea .ordinary s w q) : K.Plea p s w q := by
  cases h with
  | asks h => exact .asks h
  | serves t ht h hc => exact .serves t ht h hc
  | again t cid price ht h hp hc => exact .again t cid price ht h hp hc
  | opens t cid hp => cases hp
  | clears h => exact .clears h
  | switches hp => cases hp

theorem Keeps.raise {α : Type} {q : RT α} {P : α → Runtime → ω → Prop}
    (h : K.Keeps .ordinary q P s w) : K.Keeps p q P s w :=
  Meets.weaken h (fun _ _ _ h => ⟨h.1,h.2.raise⟩) (fun _ _ _ _ h => Stroke.raise h)
    (fun _ _ _ _ _ _ h => h) fun _ _ h => h

theorem Laws.lower (hK : K.Laws p) : K.Laws .ordinary where
  known_of_held := hK.known_of_held
  kin_of_held := hK.kin_of_held
  kin_plan := hK.kin_plan
  back_inv := hK.back_inv
  back_held := hK.back_held
  back_known := hK.back_known
  back_kin := hK.back_kin
  back_leg := hK.back_leg
  back_again := hK.back_again
  back_spent := hK.back_spent
  back_ticket := hK.back_ticket
  back_owned := hK.back_owned
  back_now := hK.back_now
  listed := hK.listed
  reread := hK.reread
  takeIntent := hK.takeIntent
  takePair := hK.takePair
  deed_inv h hd := hK.deed_inv h hd.raise
  deed_quiet h hd := hK.deed_quiet h hd.raise
  watch_known := hK.watch_known
  watch_spent := hK.watch_spent
  deed_edit := hK.deed_edit
  deed_known := hK.deed_known
  deed_mints := hK.deed_mints
  deed_create := hK.deed_create
  deed_kin h hd := hK.deed_kin h hd.raise
  deed_leg h hd := hK.deed_leg h hd.raise
  deed_again h hd := hK.deed_again h hd.raise
  deed_spent h hd := hK.deed_spent h hd.raise
  deed_ticket h hd := hK.deed_ticket h hd.raise
  deed_owned h hd := hK.deed_owned h hd.raise
  patch_owned := hK.patch_owned
  propose hp := nomatch hp
  mint hp := nomatch hp

/-- An ordinary method leaves the intents of its caller to the caller. -/
theorem Keeps.owned (hK : K.Laws .ordinary) {α : Type} {q : RT α} {P : α → Runtime → ω → Prop}
    (h : K.Keeps .ordinary q P s w) (ho : K.owned i s w) :
    K.Keeps .ordinary q (fun a s w => P a s w ∧ K.owned i s w) s w := by
  induction q generalizing s w with
  | done a => exact ⟨h,ho⟩
  | fail e => exact h
  | get k ih => exact ih s h ho
  | put l s₁ q ih =>
    refine ⟨h.1,ih h.2 ?_⟩
    cases h.1 with
    | deed inv hd => exact hK.deed_owned inv hd ho
    | proposes t hp => cases hp
    | draws s₀ t i hp => cases hp
    | takes t u hp => cases hp
    | approves s₀ t u i j hp => cases hp
  | await q k ih =>
    exact ⟨h.1,fun r s' w' hb => ih r (h.2 r s' w' hb) (hK.back_owned h.1.1 hb ho)⟩

end raise

/-- What the approval of an intent needs to know about its thread. -/
def Approvable (K : Custody ω) (intentId : String) (s : Runtime) (w : ω) : Prop :=
  ∀ i t, s.intent intentId=some i → i.threadId=some t.id → s.thread t.id=some t → t.isOpen →
    K.held t s w ∧ (i.kind=.close → K.watch → ¬t.inFlight s.now)

/-- In hand a thread with an intent of its own, which does not open it. -/
structure Acting (K : Custody ω) (t : StrategyThread) (i : DemoIntent) (s : Runtime) (w : ω) :
    Prop extends K.Grip t Alone s w where
  owned : K.owned i s w
  kind : i.kind ≠ .open

variable [Host]

namespace Laws

variable (hK : K.Laws p)
include hK

theorem cancelEntry_keeps (h : K.Hand t Alone s w) (hs : K.Calm t s) (reason : String) :
    K.Keeps p (cancelEntry t reason) (fun _ s w => K.inv s w) s w := by
  unfold cancelEntry
  refine Meets.bind (M := fun _ s w => K.Hand t Alone s w ∧ K.Calm t s) ?_ fun ok s₁ w₁ ⟨h₁,hs₁⟩ => ?_
  · unfold cancelSentEntry
    split
    · next cid hcid =>
      -- the id is given and the entry not on its way, and both stay so
      have hsure : K.Sure t s := fun hw _ => ⟨by rw [hcid]; rfl,hs.still hw⟩
      refine ⟨⟨h.inv,.serves t (hK.kin h) ⟨rfl,hcid⟩ (by rintro _ ⟨⟩)⟩,fun r s₁ w₁ hb => ?_⟩
      exact ⟨hK.hand_back h hb,(hK.sure_back h.inv hsure hb).calm⟩
    · exact ⟨h,hs⟩
  simp only [Meets.read_bind]
  split
  · refine hK.end_bind h₁ ⟨rfl,le_rfl,hs₁.firm,.ended rfl (.inr rfl) (.inl rfl) (.inl rfl) ?_⟩ fun h =>
      pollAccount_keeps hK h.inv
    exact fun hw => .inr (.inr (.inr (hs₁.still hw)))
  · exact hK.end_bind h₁ (.note hs₁.firm rfl le_rfl rfl (by rintro ⟨⟩)) fun h => pollAccount_keeps hK h.inv

theorem acting_back {q : Call} {r : Answer q} (h : Acting K t i s w) (hb : K.back s w q r s' w') :
    Acting K t i s' w' :=
  ⟨hK.grip_back h.toGrip hb,hK.back_owned h.inv hb h.owned,h.kind⟩

/-- The intent of a close or of a reduction: new, and of the thread in hand. -/
theorem newIntent_bind {α : Type} {P : α → Runtime → ω → Prop} {principal : Principal}
    {d : IntentDraft} {k : DemoIntent → RT α} (h : K.Hand t Alone s w) (hd : d.kind ≠ .open)
    (hk : ∀ i s' w, s'.now=s.now → K.Hand t Alone s' w → Acting K t i s' w → K.Keeps p (k i) P s' w) :
    K.Keeps p (newIntent t principal d >>= k) P s w := by
  have hdeed : K.Deed p .intent s w (s.newIntent t principal d).2 := .newIntent s t principal d
    fun hopen => absurd hopen hd
  have h' := hK.hand_of_deed h hdeed (newIntent_quiet s t principal d)
  exact ⟨.deed h.inv hdeed,hk _ _ _ (newIntent_fields s t principal d).2.1 h'
    ⟨hK.grip h',hK.takeIntent h'.inv (intent_newIntent s t principal d),hd⟩⟩

/-- The intent in hand is patched. -/
theorem patch_bind {α : Type} {P : α → Runtime → ω → Prop} {f : DemoIntent → DemoIntent}
    {k : DemoIntent → RT α} (h : Acting K t i s w) (ht : (f i).terms=i.terms)
    (hs : (f i).status ≠ .pendingApproval)
    (hk : ∀ s', K.Deed p .intent s w s' → (∀ id, Quiet id s s') → Acting K t (f i) s' w →
      K.Keeps p (k (f i)) P s' w) :
    K.Keeps p (updateIntent i f >>= k) P s w := by
  have hd : K.Deed p .intent s w (s.saveIntent (f i)) := .patch h.owned ht (fun hk => absurd hk h.kind) hs
  have ho := hK.deed_owned h.inv hd (hK.patch_owned h.inv h.owned ht)
  refine ⟨.deed h.inv hd,hk _ hd (.of_threads rfl) ⟨hK.grip_of_deed h.toGrip hd (.of_threads rfl),ho,?_⟩⟩
  rw [show (f i).kind=i.kind from congrArg Terms.kind ht]
  exact h.kind

theorem closeProven_keeps (h : K.Hand t Alone s w) (ha : Acting K t i s w) (r : CloseReceipt) :
    K.Keeps p (closeProven t r) (fun _ s w => K.Hand t Alone s w ∧ Acting K t i s w) s w := by
  unfold closeProven
  split_ifs
  · exact ⟨h,ha⟩
  · exact ⟨h,ha⟩
  · simp only [Meets.request_bind]
    refine ⟨⟨h.inv,.asks trivial⟩,fun r s₁ w₁ hb => ?_⟩
    have h₁ := hK.hand_back h hb
    have ha₁ := hK.acting_back ha hb
    cases r with
    | error e => exact h₁.inv
    | ok fresh =>
      have hd : K.Deed p .account s₁ w₁ (s₁.setAccount fresh) := Deed.setAccount fresh
      simp only [orThrow,Prog.done_bind,Meets.update_bind]
      exact ⟨.deed h₁.inv hd,hK.hand_of_deed h₁ hd (.of_threads rfl),
        hK.grip_of_deed ha₁.toGrip hd (.of_threads rfl),hK.deed_owned h₁.inv hd ha₁.owned,ha₁.kind⟩

theorem settleClose_keeps (h : K.Hand t Alone s w) (ha : Acting K t i s w)
    (hst : t.status ≠ .pendingEntry) (r : CloseReceipt) (reason : String) (proven : Bool) :
    K.Keeps p (settleClose t i r reason proven) (fun _ s w => K.inv s w) s w := by
  simp only [settleClose,Meets.read_bind]
  split
  · refine hK.patch_bind ha rfl (by rintro ⟨⟩) fun s₁ hd hq _ => ?_
    have hs : K.Sure t s₁ := .of_status hst
    refine hK.end_bind (hK.hand_of_deed h hd hq)
      ⟨rfl,le_rfl,hs.firm,.ended rfl (.inl rfl) (.inl rfl) (.inl rfl) ?_⟩
      fun h => pollAccount_keeps hK h.inv
    exact fun hw => .inr (.inr (.inr (hs hw).not_inFlight))
  · refine hK.patch_bind ha rfl (by rintro ⟨⟩) fun s₁ hd hq _ => ?_
    have hs : K.Sure t s₁ := .of_status hst
    exact (hK.save_rest (hK.hand_of_deed h hd hq) (.flag hs.firm (by rintro ⟨⟩) _)).mono fun _ _ _ h => h.inv

theorem closeThreadNow_keeps (h : K.Hand t Alone s w) (hs : K.Calm t s) (byAgent : Bool)
    (reason : String) :
    K.Keeps p (closeThreadNow t byAgent reason) (fun _ s w => K.inv s w) s w := by
  unfold closeThreadNow
  split
  · exact hK.cancelEntry_keeps h hs reason
  · next hst =>
    simp only [Meets.read_bind]
    refine hK.newIntent_bind h (by rintro ⟨⟩) fun i s₁ w₁ _ h₁ ha₁ => ?_
    have hsure : K.Sure t s₁ := .of_status hst
    have hm : K.Edit .close s₁ w₁ t (nextLegCid t .x).2 := .mint hsure.firm .x
    have hd : K.Deed p .close s₁ w₁ (s₁.saveThread (nextLegCid t .x).2) := .edit h₁.copy hm
    have ha₂ : Acting K (nextLegCid t .x).2 i (s₁.saveThread (nextLegCid t .x).2) w₁ :=
      ⟨hK.grip (hK.hand_edit h₁ hm id),hK.deed_owned h₁.inv hd ha₁.owned,ha₁.kind⟩
    refine hK.mint_bind .x h₁ hsure.firm fun h₂ hl₂ => ?_
    refine hK.patch_bind ha₂ rfl (by rintro ⟨⟩) fun s₃ hd hq ha₃ => ?_
    have h₃ := hK.hand_of_deed h₂ hd hq
    have hl₃ := hK.deed_leg h₂.inv hd hl₂
    simp only [Meets.request_bind]
    refine ⟨⟨h₃.inv,.serves _ (hK.kin h₃) rfl (by rintro _ ⟨⟩)⟩,fun c s₄ w₄ hb₄ => ?_⟩
    have h₄ := hK.hand_back h₃ hb₄
    have hl₄ := hK.back_leg h₃.inv hb₄ (by rintro ⟨⟩) hl₃
    have ha₄ := hK.acting_back ha₃ hb₄
    refine ⟨⟨h₄.inv,.serves _ (hK.kin h₄) rfl (List.forall_mem_singleton.mpr hl₄)⟩,?_⟩
    intro r s₅ w₅ hb₅
    have h₅ := hK.hand_back h₄ hb₅
    have ha₅ := hK.acting_back ha₄ hb₅
    exact Meets.bind (hK.closeProven_keeps h₅ ha₅ r) fun proven s₆ w₆ h₆ =>
      hK.settleClose_keeps h₆.1 h₆.2 hst _ _ _

theorem closeThread_keeps (h : K.inv s w) (threadId reason : String)
    (ht : ∀ t, s.thread threadId=some t → t.isOpen → K.held t s w) :
    K.Keeps p (closeThread threadId reason) (fun _ s w => K.inv s w) s w := by
  simp only [closeThread,Meets.read_bind]
  split
  · exact h
  · next t hthread =>
    split_ifs with ho hsub
    · exact h
    · have hf : K.Firm t s := .stored (by rw [Runtime.id_of_thread hthread]; exact hthread)
      refine hK.closeThreadNow_keeps ⟨⟨h,fun _ hv => hv.elim⟩,offThread_alone _,ht t hthread ho⟩
        ⟨hf,fun _ hf => hsub ⟨hf.1,?_⟩⟩ _ _
      obtain ⟨since,hsince,-⟩ := hf.2.2
      exact Option.isSome_of_mem hsince
    · exact h

theorem reduceHalf_keeps (h : K.Hand t Alone s w) (hst : t.status=.inPosition) :
    K.Keeps p (reduceHalf t) (fun _ s w => K.inv s w) s w := by
  simp only [reduceHalf,Meets.read_bind]
  split
  · exact h.inv
  · next pos _ =>
    refine hK.ask_bind h (.asks trivial) fun r s₁ w₁ _ h₁ => ?_
    cases r with
    | error e => exact h₁.inv
    | ok rules =>
      simp only [orThrow,Prog.done_bind]
      split
      · exact h₁.inv
      · refine hK.newIntent_bind h₁ (by rintro ⟨⟩) fun i s₂ w₂ _ h₂ ha₂ => ?_
        have hsure : K.Sure t s₂ := .of_status (by rw [hst]; rintro ⟨⟩)
        have hm : K.Edit .reduce s₂ w₂ t (nextLegCid t .r).2 := .mint hsure.firm .r
        have hd : K.Deed p .reduce s₂ w₂ (s₂.saveThread (nextLegCid t .r).2) := .edit h₂.copy hm
        have ha₃ : Acting K t i (s₂.saveThread (nextLegCid t .r).2) w₂ :=
          ⟨hK.grip_edit h₂ hm id,hK.deed_owned h₂.inv hd ha₂.owned,ha₂.kind⟩
        refine hK.mint_bind .r h₂ hsure.firm fun h₃ hl₃ => ?_
        refine hK.patch_bind ha₃ rfl (by rintro ⟨⟩) fun s₄ hd hq ha₄ => ?_
        have hl₄ := hK.deed_leg h₃.inv hd hl₃
        simp only [Meets.request_bind]
        refine ⟨⟨ha₄.inv,.serves t ha₄.kin rfl (List.forall_mem_singleton.mpr hl₄)⟩,fun r s₅ w₅ hb => ?_⟩
        have ha₅ := hK.acting_back ha₄ hb
        cases r with
        | error e => exact ha₅.inv
        | ok r =>
          simp only [Prog.done_bind]
          refine hK.patch_bind ha₅ rfl (by cases r.outcome <;> rintro ⟨⟩) fun s₆ hd hq ha₆ => ?_
          have hand := hK.hand_stored ha₆.toGrip
          have hid := id_getD_thread s₆ t
          simp only [storedOr,Prog.read_bind,Prog.pure_eq,Prog.get_bind,Prog.done_bind,Meets.get]
          refine Meets.bind (M := fun _ s w => K.inv s w) (Meets.onlyIf (fun _ => ?_) fun _ => hand.inv)
            fun _ _ _ h => pollAccount_keeps hK h
          refine Meets.mono (hK.save_rest hand ?_) fun _ _ _ h => h.inv
          exact ⟨rfl,le_rfl,.getD t,.resized rfl (.inr rfl) (.inr ⟨t,ha₆.known,hid.symm,hst⟩)⟩

/-- A write that leaves threads and intents alone. -/
theorem aside_bind {α : Type} {P : α → Runtime → ω → Prop} {f : Runtime → Runtime} {k : Unit → RT α}
    (h : K.inv s w) (hd : K.Deed p l s w (f s))
    (hk : K.inv (f s) w → K.Keeps p (k ()) P (f s) w) : K.Keeps p (Prog.update l f >>= k) P s w :=
  ⟨.deed h hd,hk (hK.deed_inv h hd)⟩

theorem applyReview_keeps (h : K.inv s w) (threadId : String) (action : ReviewAction)
    (ht : ∀ t, s.thread threadId=some t → t.isOpen →
      K.held t s w ∧ (action=.invalidate → K.watch → ¬t.inFlight s.now)) :
    K.Keeps p (applyReview threadId action) (fun _ s w => K.inv s w) s w := by
  simp only [applyReview,Meets.read_bind]
  split
  · exact h
  · next current hc =>
    obtain ⟨hc,ho⟩ := Option.filter_eq_some_iff.mp hc
    obtain ⟨hheld,hstill⟩ := ht current hc (by simpa using ho)
    have hand : K.Hand current Alone s w := ⟨⟨h,fun _ hv => hv.elim⟩,offThread_alone _,hheld⟩
    have hf : K.Firm current s := .stored (by rw [Runtime.id_of_thread hc]; exact hc)
    have hcalm : ∀ u : StrategyThread, (K.watch → ¬u.inFlight s.now) → Calm K u (s.saveThread u) :=
      fun u hu => ⟨.saved u,hu⟩
    split
    · exact hK.save_bind hand (.note hf rfl le_rfl rfl id) id fun h =>
        hK.cancelEntry_keeps h (hcalm _ (hstill rfl)) _
    · exact hK.save_bind hand (.note hf rfl le_rfl rfl id) id fun h =>
        hK.closeThreadNow_keeps h (hcalm _ (hstill rfl)) _ _
    · next hst =>
      refine hK.save_bind hand (.note hf rfl le_rfl rfl id) id fun h =>
        hK.closeThreadNow_keeps h (hcalm _ ?_) _ _
      rintro - ⟨hp,-⟩
      exact ThreadStatus.noConfusion (hst.symm.trans hp)
    · next hst =>
      exact hK.save_bind hand (.note hf rfl le_rfl rfl id) id fun h => hK.reduceHalf_keeps h hst
    · refine Meets.mono (hK.save_rest hand ?_) fun _ _ _ h => h.inv
      exact .note hf rfl le_rfl rfl id

theorem approveIntent_keeps (h : K.inv s w) (hp : p=.opening) (intentId : String)
    (ha : Approvable K intentId s w) :
    K.Keeps p (approveIntent intentId) (fun _ s w => K.inv s w) s w := by
  simp only [approveIntent,Meets.read_bind]
  split
  · exact h
  · next intent hintent =>
    have hiid := id_of_intent hintent
    subst hiid
    split
    · exact h
    · next hst =>
      rw [not_not] at hst
      split
      · exact h
      · next thread hthread =>
        obtain ⟨tid,htid,hthread⟩ := Option.bind_eq_some_iff.mp hthread
        have hid := Runtime.id_of_thread hthread
        subst hid
        split_ifs with ho hh hpause
        · exact h
        · exact h
        · obtain ⟨hheld,hstill⟩ := ha intent thread hintent htid hthread ho
          have hand : K.Hand thread Alone s w := ⟨⟨h,fun _ hv => hv.elim⟩,offThread_alone _,hheld⟩
          have howned := hK.takeIntent h hintent
          split
          · next hkind =>
            exact hK.executeOpen_keeps hand howned (hK.takePair h hintent htid hkind hst) hp
          · next hkind =>
            refine hK.patch_bind ⟨hK.grip hand,howned,by rw [hkind]; rintro ⟨⟩⟩ rfl (by rintro ⟨⟩) ?_
            intro s₁ hd hq ha₁
            have hcalm : K.Calm thread s := ⟨.stored hthread,hstill hkind⟩
            have hclose := hK.lower.closeThreadNow_keeps (hK.hand_of_deed hand hd hq)
              (hcalm.quiet (hq thread.id) hd.now) false
              (intent.error.getD "用户确认平仓")
            refine Meets.bind (Keeps.raise (Keeps.owned hK.lower hclose ha₁.owned)) ?_
            rintro - s₂ w₂ ⟨h₂,ho₂⟩
            have hd : ∀ x : IntentStatus, x ≠ .pendingApproval → K.Deed p .intent s₂ w₂
                (s₂.saveIntent { intent with status := x, error := intent.error }) := fun x hx =>
              .patch ho₂ rfl (fun hk => by rw [show intent.kind=.close from hkind] at hk; cases hk) hx
            have hne : (if ∃ after ∈ s₂.thread thread.id, ¬after.isOpen then IntentStatus.filled
                else .failed) ≠ .pendingApproval := by split <;> rintro ⟨⟩
            exact ⟨.deed h₂ (hd _ hne),hK.deed_inv h₂ (hd _ hne)⟩
          · exact h
        · exact h

/-- A method that runs without an await. -/
theorem atOnce_keeps {f : Runtime → Except String Runtime} (h : K.inv s w)
    (hf : ∀ s', f s=.ok s' → K.Deed p l s w s') :
    K.Keeps p (atOnce l f) (fun _ s w => K.inv s w) s w := by
  simp only [atOnce,Meets.read_bind]
  cases hs : f s with
  | error e => exact h
  | ok s' => exact ⟨.deed h (hf s' hs),hK.deed_inv h (hf s' hs)⟩

theorem rejectIntent_deed (h : K.inv s w) {intentId : String} (hr : s.rejectIntent intentId=.ok s')
    (hs : ∀ i t, s.intent intentId=some i → i.threadId=some t.id → s.thread t.id=some t → K.watch →
      ¬t.inFlight s.now) : K.Deed p .reject s w s' := by
  unfold Runtime.rejectIntent at hr
  split at hr
  · cases hr
  · next intent hi =>
    have hiid := id_of_intent hi
    subst hiid
    split at hr
    · cases hr
    · have hm : ∀ s'' : Runtime, s''.intents=(s.saveIntent { intent with
            status := .rejected, error := some "用户拒绝" }).intents →
          K.IntentMove p s w s'' := fun s'' hs =>
        .patch intent _ (hK.takeIntent h hi) (by rfl) (fun _ => .inr rfl) (by nofun) hs
      dsimp only at hr
      split at hr <;> cases hr
      · exact ⟨.same rfl,hm _ rfl,rfl,.inl rfl,.inl rfl,.same rfl rfl⟩
      · next t ht =>
        obtain ⟨tid,htid,ht⟩ := Option.bind_eq_some_iff.mp ht
        have ht' : s.thread t.id=some t := by
          rw [Runtime.id_of_thread ht]
          exact ht
        have hid : intent.threadId=some t.id := by
          rw [Runtime.id_of_thread ht]
          exact htid
        refine ⟨.reject t (bump { t with
          status := .canceled, closedAt := some s.now,
          closeReason := some "用户拒绝了提议" } s.now) ht' rfl rfl rfl rfl rfl (hs intent t hi hid ht') rfl,
          ?_,rfl,.inl rfl,.inl rfl,.same rfl rfl⟩
        exact hm _ rfl

omit hK in
/-- Patching a new intent at once is making it so. -/
theorem intents_patch_newIntent (s : Runtime) (thread : StrategyThread) (principal : Principal)
    (d : IntentDraft) {j : DemoIntent} (hj : j.id=(s.newIntent thread principal d).1.id) :
    ((s.newIntent thread principal d).2.saveIntent j).intents=(s.saveIntent j).intents := by
  have h : ((s.newIntent thread principal d).2.saveIntent j).intents=
      (s.newIntent thread principal d).2.intents.upsert j := rfl
  rw [h,(newIntent_fields s thread principal d).1]
  exact Keyed.Table.upsert_upsert hj _

omit hK in
theorem chatCloseThread_deed {threadId : String}
    (hr : (s.chatCloseThread threadId).map Prod.snd=.ok s') : K.Deed p l s w s' := by
  unfold Runtime.chatCloseThread at hr
  split at hr
  · cases hr
  · next t ht =>
    cases hr
    generalize hdr : IntentDraft.mk _ _ _ _ _ _ _ _=d
    have hkind : d.kind=.close := by rw [← hdr]
    obtain ⟨hi,hn,hb,hh⟩ := newIntent_fields s t .agent d
    obtain ⟨ha,hd⟩ := newIntent_books s t .agent d
    refine ⟨?_,.add { (s.newIntent t .agent d).1 with error := some "对话中提议平仓" }
      s.intent_freshIntentId rfl rfl ?_ ?_,
      hn,.inl hb,.inl hh,.same ha hd⟩
    · obtain ⟨u,hu,ids,h⟩|h := newIntent_threads s t .agent d
      · exact .jot u ids hu h
      · exact .same h
    · intro hk
      have hk' : d.kind=.open := hk
      rw [hkind] at hk'
      cases hk'
    · exact intents_patch_newIntent s t .agent d rfl

omit [Host] hK in
theorem consumeToken_deed (nonce : Option String) (kind : ConfirmKind) (targetId fp : String) :
    K.Deed p l s w (s.consumeToken nonce kind targetId fp).2 := by
  unfold Runtime.consumeToken
  split
  · exact .aside rfl rfl rfl (.inl rfl) (.inl rfl) (.same rfl rfl)
  · split
    · exact .aside rfl rfl rfl (.inl rfl) (.inl rfl) (.same rfl rfl)
    · split_ifs <;> exact .aside rfl rfl rfl (.inl rfl) (.inl rfl) (.same rfl rfl)

omit [Host] hK in
theorem consumeToken_only (s : Runtime) (nonce : Option String) (kind : ConfirmKind)
    (targetId fp : String) : (s.consumeToken nonce kind targetId fp).2.threads=s.threads ∧
      (s.consumeToken nonce kind targetId fp).2.intents=s.intents := by
  unfold Runtime.consumeToken
  split
  · exact ⟨rfl,rfl⟩
  · split
    · exact ⟨rfl,rfl⟩
    · split_ifs <;> exact ⟨rfl,rfl⟩

omit hK in
theorem issueIntentConfirmation_deed {intentId : String}
    (hr : (s.issueIntentConfirmation intentId).map Prod.snd=.ok s') : K.Deed p l s w s' := by
  unfold Runtime.issueIntentConfirmation at hr
  split at hr
  · cases hr
  · split at hr
    · cases hr
    · cases hr
      exact .aside rfl rfl rfl (.inl rfl) (.inl rfl) (.same rfl rfl)

omit [Host] hK in
theorem resume_deed (hp : p=.ruling) {confirm : Option String} (hr : s.resume confirm=.ok s') :
    K.Deed p l s w s' := by
  unfold Runtime.resume at hr
  split at hr
  · cases hr
  · cases hr
    exact .aside rfl rfl rfl (.inl rfl) (.inr hp) (.same rfl rfl)

/-- A control flag is set when the program ends, however it ends. -/
theorem ensure_keeps {α : Type} {q : RT α} {f : Runtime → Runtime}
    (hq : K.Keeps p q (fun _ s w => K.inv s w) s w) (hd : ∀ s w, K.Deed p l s w (f s)) :
    K.Keeps p (q.ensure l f) (fun _ s w => K.inv s w) s w := by
  have h : ∀ s w, K.inv s w → K.Stroke p l s w (f s) ∧ K.inv (f s) w := fun s w hi =>
    ⟨.deed hi (hd s w),hK.deed_inv hi (hd s w)⟩
  exact hq.ensure (fun _ s w hi => h s w hi) fun s w hi => h s w hi

theorem approve_keeps (h : K.inv s w) (hp : p=.opening) (intentId : String)
    (nonce : Option String) (by_ : Principal) (ha : Approvable K intentId s w) :
    K.Keeps p (approve intentId nonce by_) (fun _ s w => K.inv s w) s w := by
  have hmove : ∀ {s s' : Runtime} {l : Writer}, K.inv s w → Approvable K intentId s w →
      K.Deed p l s w s' → s'.threads=s.threads → s'.intents=s.intents →
      K.inv s' w ∧ Approvable K intentId s' w := by
    intro s s' l h ha hd ht hi
    refine ⟨hK.deed_inv h hd,fun i t hit htid hthread ho => ?_⟩
    obtain ⟨h₁,h₂⟩ := ha i t (by rw [← hit]; unfold Runtime.intent; rw [hi]) htid
      (by rw [← hthread,thread_congr ht]) ho
    exact ⟨(hK.deed_quiet h hd (.of_threads ht t.id)).1 h₁,fun hk hw => by rw [hd.now]; exact h₂ hk hw⟩
  simp only [approve,Meets.read_bind]
  split
  · exact h
  · have hd : K.Deed p .control s w (s.setApproving (intentId::s.approving)) :=
      .aside rfl rfl rfl (.inl rfl) (.inl rfl) (.same rfl rfl)
    obtain ⟨h₁,ha₁⟩ := hmove h ha hd rfl rfl
    simp only [Meets.update_bind]
    refine ⟨.deed h hd,hK.ensure_keeps ?_ fun _ _ => .aside rfl rfl rfl (.inl rfl) (.inl rfl) (.same rfl rfl)⟩
    simp only [approveWith,Meets.read_bind]
    generalize s.setApproving (intentId::s.approving)=s₁ at h₁ ha₁
    split
    · exact h₁
    · next intent _ =>
      split
      · exact h₁
      · split
        · split
          · exact h₁
          · exact hK.approveIntent_keeps h₁ hp intentId ha₁
        · have hd₁ : K.Deed p .control s₁ w
              (s₁.consumeToken nonce .intent intent.id (intentFingerprint intent)).2 :=
            consumeToken_deed _ _ _ _
          obtain ⟨ht,hi⟩ := consumeToken_only s₁ nonce .intent intent.id (intentFingerprint intent)
          obtain ⟨h₂,ha₂⟩ := hmove h₁ ha₁ hd₁ ht hi
          simp only [Meets.update_bind]
          refine ⟨.deed h₁ hd₁,?_⟩
          split
          · exact h₂
          · exact hK.approveIntent_keeps h₂ hp intentId ha₂

theorem switchBackendInner_keeps (h : K.inv s w) (hp : p=.switching) (kind : Backend) :
    K.Keeps p (switchBackendInner kind) (fun _ s w => K.inv s w) s w := by
  have hstop : ∀ {s : Runtime} {w : ω} (kind : Backend), K.inv s w →
      K.Plea p s w (.stopBackend kind) := fun kind _ => .switches hp (.inr ⟨kind,rfl⟩)
  simp only [switchBackendInner,Meets.request_bind]
  refine ⟨⟨h,.switches hp (.inl ⟨kind,rfl⟩)⟩,fun r s₁ w₁ hb => ?_⟩
  have h₁ := hK.back_inv h hb
  cases r with
  | error e => exact ⟨⟨h₁,hstop _ h₁⟩,fun _ _ _ hb => hK.back_inv h₁ hb⟩
  | ok _ =>
    have hd : K.Deed p .control s₁ w₁ (s₁.setBackend kind) :=
      .aside rfl rfl rfl (.inr hp) (.inl rfl) (.same rfl rfl)
    have h₂ := hK.deed_inv h₁ hd
    refine ⟨.deed h₁ hd,⟨h₂,hstop _ h₂⟩,fun _ s₃ w₃ hb => ?_⟩
    have h₃ := hK.back_inv h₂ hb
    exact ⟨⟨h₃,.asks trivial⟩,fun _ _ _ hb => hK.back_inv h₃ hb⟩

theorem switchBackend_keeps (h : K.inv s w) (hp : p=.switching) (kind : Backend) :
    K.Keeps p (switchBackend kind) (fun _ s w => K.inv s w) s w := by
  have haside : ∀ (s : Runtime) (w : ω) b, K.Deed p .control s w (s.setSwitching b) := fun _ _ _ =>
    .aside rfl rfl rfl (.inl rfl) (.inl rfl) (.same rfl rfl)
  simp only [switchBackend,Meets.read_bind]
  split
  · exact h
  · split
    · exact h
    · split
      · exact h
      · refine hK.aside_bind h (haside _ _ _) fun h₁ => ?_
        exact hK.ensure_keeps (hK.switchBackendInner_keeps h₁ hp kind) fun s w => haside s w false

theorem flattenSymbols_keeps (h : K.inv s w) (syms : List String) :
    K.Keeps p (flattenSymbols syms) (fun _ s w => K.inv s w) s w := by
  induction syms generalizing s w with
  | nil => exact h
  | cons sym syms ih =>
    simp only [flattenSymbols,Meets.request_bind,Meets.read_bind]
    refine ⟨⟨h,.clears trivial⟩,fun c s₁ w₁ hb => ?_⟩
    have h₁ := hK.back_inv h hb
    refine ⟨⟨h₁,.clears trivial⟩,fun r s₂ w₂ hb => ?_⟩
    exact Meets.bind (ih (hK.back_inv h₁ hb)) fun _ _ _ h => h

omit [Host] hK in
theorem haltThread_edit (hf : K.Firm t s) (failed : List String) (now : ℕ) :
    K.Edit .halt s w t (haltThread failed now t) := by
  unfold haltThread
  split
  · exact .flag hf (by nofun) _
  · refine ⟨rfl,le_rfl,hf,.ended rfl ?_ (.inl rfl) (.inr rfl) fun _ => .inr (.inr (.inl rfl))⟩
    show t.endStatus=_ ∨ t.endStatus=_
    unfold StrategyThread.endStatus
    split
    · exact .inr rfl
    · exact .inl rfl

/-- The listed threads are stored one after the other, each as it was listed until then. -/
theorem haltThreads_keeps (failed : List String) (now : ℕ) {ts : List StrategyThread}
    (hnd : (ts.map StrategyThread.id).Nodup) (h : K.Has (· ∈ ts) s w)
    (hs : ∀ v ∈ ts, s.thread v.id=some v) :
    K.Keeps p (ts.forM fun t => saveThread .halt (haltThread failed now t))
      (fun _ s w => K.inv s w) s w := by
  induction ts generalizing s w with
  | nil => exact h.inv
  | cons t ts ih =>
    rw [List.map_cons,List.nodup_cons] at hnd
    obtain ⟨hnt,hnd⟩ := hnd
    have hoff : OffThread t.id (· ∈ ts) := fun v hv hid => hnt (hid ▸ List.mem_map_of_mem hv)
    have hand : K.Hand t (· ∈ ts) s w :=
      ⟨⟨h.inv,fun v hv => h.held v (List.mem_cons_of_mem _ hv)⟩,hoff,h.held t List.mem_cons_self⟩
    have he : K.Edit .halt s w t (haltThread failed now t) :=
      haltThread_edit (.stored (hs t List.mem_cons_self)) failed now
    refine hK.end_bind hand he fun h' => ih hnd h' fun v hv => ?_
    rw [Runtime.thread_saveThread,if_neg]
    · exact hs v (List.mem_cons_of_mem _ hv)
    · rw [show (haltThread failed now t).id=t.id from congrArg Plan.id he.plan]
      exact fun hid => hoff v hv hid.symm

theorem halt_keeps (h : K.inv s w) (hp : p=.ruling) (haims : ∀ x, K.aims x) :
    K.Keeps p halt (fun _ s w => K.inv s w) s w := by
  have hd : K.Deed p .control s w (s.setHalted true) := .aside rfl rfl rfl (.inl rfl) (.inr hp) (.same rfl rfl)
  unfold halt
  refine hK.aside_bind h hd fun h₁ => ?_
  simp only [Meets.read_bind]
  refine Meets.bind (hK.flattenSymbols_keeps h₁ _) fun failed s₁ w₁ h₂ => ?_
  simp only [Meets.read_bind]
  refine Meets.bind (hK.haltThreads_keeps failed s₁.now s₁.openThreads_nodup
    ⟨h₂,fun v hv => hK.listed h₂ hv (haims v.plan)⟩ fun v hv => ?_) fun _ _ _ h => pollAccount_keeps hK h
  exact Runtime.thread_of_mem (Runtime.mem_openThreads hv).1

theorem clearAlgoOrders_keeps (h : K.Hand t Alone s w) (symbol : String) :
    K.Keeps p (clearAlgoOrders symbol) (fun _ s w => K.Hand t Alone s w) s w := by
  simp only [clearAlgoOrders,Meets.read_bind]
  refine Meets.onlyIf (fun _ => ?_) fun _ => h
  simp only [Meets.request_bind]
  refine ⟨⟨h.inv,.asks trivial⟩,fun r s₁ w₁ hb => ?_⟩
  have h₁ := hK.hand_back h hb
  cases r with
  | error e => exact h₁.inv
  | ok stale =>
    refine Meets.forM (I := fun _ s w => K.Hand t Alone s w) h₁ fun cid _ s w h => ?_
    exact ⟨⟨h.inv,.clears trivial⟩,fun _ s₂ w₂ hb => hK.hand_back h hb⟩

theorem takeOver_keeps (h : K.inv s w) (symbol : String) (pos : PositionView) (stopPrice : String)
    (tp : Option String) (ids : List String) (newStop newTp : Bool)
    (haims : ∀ x, x.symbol=symbol → K.aims x) :
    K.Keeps p (takeOver symbol pos stopPrice tp ids newStop newTp) (fun _ s w => K.inv s w) s w := by
  simp only [takeOver,Meets.read_bind]
  refine hK.create_bind h ⟨s.thread_freshThreadId,rfl,rfl,rfl,rfl,rfl⟩ (haims _ rfl) fun h₁ => ?_
  refine Meets.bind (M := fun _ s w => K.inv s w) (Meets.onlyIf (fun _ => ?_) fun _ => h₁.inv)
    fun _ _ _ h => pollAccount_keeps hK h
  refine Meets.bind (M := fun _ s w => K.Hand _ Alone s w)
    (Meets.onlyIf (fun _ => hK.clearAlgoOrders_keeps h₁ symbol) fun _ => h₁) fun _ s w h => ?_
  exact (hK.placeProtection_keeps (hK.grip h) none nofun).mono fun _ _ _ h => h.inv

theorem adoptPosition_keeps (h : K.inv s w) (symbol : String) (stop tp : Option String)
    (haims : ∀ x, x.symbol=symbol → K.aims x) :
    K.Keeps p (adoptPosition symbol stop tp) (fun _ s w => K.inv s w) s w := by
  simp only [adoptPosition,Meets.read_bind]
  split
  · exact h
  · split
    · exact h
    · simp only [Meets.request_bind]
      refine ⟨⟨h,.asks trivial⟩,fun r s₁ w₁ hb => ?_⟩
      have h₁ := hK.back_inv h hb
      cases r with
      | error e => exact h₁
      | ok acct =>
        have h₂ := hK.deed_inv h₁ (Deed.setAccount (p := p) (w := w₁) acct)
        simp only [orThrow,Prog.done_bind,Meets.update_bind]
        refine ⟨.deed h₁ (Deed.setAccount acct),?_⟩
        split
        · exact h₂
        · split
          · exact h₂
          · split
            · exact h₂
            · exact hK.takeOver_keeps h₂ _ _ _ _ _ _ _ haims

theorem manualClose_keeps (h : K.inv s w) (symbol : String) (side : Direction)
    (haims : ∀ x, x.symbol=symbol → K.aims x)
    (hs : ∀ t ∈ s.openThreads, t.symbol=symbol → K.watch → ¬t.inFlight s.now) :
    K.Keeps p (manualClose symbol side) (fun _ s w => K.inv s w) s w := by
  simp only [manualClose,Meets.read_bind]
  split
  · next t ht =>
    split
    · exact h
    · have hmem := List.mem_of_find?_eq_some ht
      have hsym : t.symbol=symbol := by simpa using List.find?_some ht
      exact hK.closeThreadNow_keeps
        ⟨⟨h,fun _ hv => hv.elim⟩,offThread_alone _,hK.listed h hmem (haims _ hsym)⟩
        ⟨.stored (Runtime.thread_of_mem (Runtime.mem_openThreads hmem).1),hs t hmem hsym⟩ _ _
  · split
    · exact h
    · split
      · exact h
      · simp only [Meets.request_bind,Meets.read_bind]
        refine ⟨⟨h,.clears trivial⟩,fun c s₁ w₁ hb => ?_⟩
        have h₁ := hK.back_inv h hb
        refine ⟨⟨h₁,.clears trivial⟩,fun r s₂ w₂ hb => ?_⟩
        have h₂ := hK.back_inv h₁ hb
        split
        · exact h₂
        · exact pollAccount_keeps hK h₂

theorem manualOrder_keeps (h : K.inv s w) (req : ManualOrderRequest) (close : Bool)
    (hp : close=false → p=.opening) (haims : ∀ x, x.symbol=req.symbol → K.aims x)
    (hs : close=true → ∀ s w, K.inv s w → ∀ t ∈ s.openThreads, t.symbol=req.symbol → K.watch →
      ¬t.inFlight s.now) :
    K.Keeps p (manualOrder req close) (fun _ s w => K.inv s w) s w := by
  simp only [manualOrder,Meets.read_bind]
  split
  · exact h
  · refine Meets.bind (hK.knownMark_keeps h _) fun mark s₁ w₁ h₁ => ?_
    refine hK.aside_bind h₁ (.aside rfl rfl rfl (.inl rfl) (.inl rfl) (.same rfl rfl)) fun h₂ => ?_
    split
    · next hc => exact hK.manualClose_keeps h₂ _ _ haims (hs hc _ _ h₂)
    · next hc => exact hK.manualOpen_keeps h₂ (hp (Bool.not_eq_true _ ▸ hc)) _ _ haims

end Laws

end Custody

/-- What an operation may do. -/
def Operation.power : Operation → Power
  | .executeOpen _ _ | .approveIntent _ | .openThreadFromProposal _ _ _ _ _ _ | .manualOrder _ false
  | .scan _ _ _ _ _ _ | .approve _ _ _ => .opening
  | .halt | .resume _ => .ruling
  | .switchBackend _ => .switching
  | _ => .ordinary

/-- What an operation that is given the id of a thread or of an intent needs to know about it, which
threads the others may take copies of, and what the ones that end pending threads need to know where
threads in flight are watched. -/
def Operation.Admitted (K : Custody ω) (s : Runtime) (w : ω) : Operation → Prop
  | .poll => (∀ x, K.aims x) ∧ ∀ t s w, K.inv s w → K.held t s w → s.halted=true → K.Sure t s
  | .halt => ∀ x, K.aims x
  | .adoptPosition symbol _ _ | .openThreadFromProposal symbol _ _ _ _ _ | .scan symbol _ _ _ _ _ =>
    ∀ x, x.symbol=symbol → K.aims x
  | .executeOpen threadId intentId => ∀ t i, s.thread threadId=some t → s.intent intentId=some i →
    t.unsent → K.held t s w ∧ K.pairs i t.id s w
  | .approveIntent intentId => K.Approvable intentId s w
  | .approve intentId _ _ => K.Approvable intentId s w
  | .closeThread threadId _ => ∀ t, s.thread threadId=some t → t.isOpen → K.held t s w
  | .review threadId action => ∀ t, s.thread threadId=some t → t.isOpen →
    K.held t s w ∧ (action=.invalidate → K.watch → ¬t.inFlight s.now)
  | .rejectIntent intentId => ∀ i t, s.intent intentId=some i → i.threadId=some t.id →
    s.thread t.id=some t → K.watch → ¬t.inFlight s.now
  | .manualOrder req close => (∀ x, x.symbol=req.symbol → K.aims x) ∧ (close=true → ∀ s w, K.inv s w →
    ∀ t ∈ s.openThreads, t.symbol=req.symbol → K.watch → ¬t.inFlight s.now)
  | _ => True

/-- Where threads in flight are not watched, an operation has to know the open threads it is given,
and an execution that its intent may open the thread. -/
theorem Operation.admitted_of_unwatched (o : Operation) (hw : ¬K.watch) (haims : ∀ x, K.aims x)
    (hopen : ∀ t, s.thread t.id=some t → t.isOpen → K.held t s w)
    (hpair : ∀ threadId intentId, o=.executeOpen threadId intentId → ∀ t i, s.thread threadId=some t →
      s.intent intentId=some i → t.unsent → K.pairs i t.id s w) : o.Admitted K s w := by
  have hopen' : ∀ {id : String} {t : StrategyThread}, s.thread id=some t → t.isOpen → K.held t s w :=
    fun ht ho => hopen _ (by rw [Runtime.id_of_thread ht]; exact ht) ho
  cases o with
  | poll => exact ⟨haims,fun t s w _ _ _ hw' => absurd hw' hw⟩
  | halt => exact haims
  | adoptPosition | openThreadFromProposal | scan => exact fun x _ => haims x
  | executeOpen threadId intentId =>
    exact fun t i ht hi hu => ⟨hopen' ht (.inl hu.1),hpair _ _ rfl t i ht hi hu⟩
  | approveIntent intentId => exact fun i t _ _ ht ho => ⟨hopen t ht ho,fun _ hw' => absurd hw' hw⟩
  | approve intentId _ _ => exact fun i t _ _ ht ho => ⟨hopen t ht ho,fun _ hw' => absurd hw' hw⟩
  | rejectIntent intentId => exact fun i t _ _ _ hw' => absurd hw' hw
  | closeThread threadId _ => exact fun t ht ho => hopen' ht ho
  | review threadId action => exact fun t ht ho => ⟨hopen' ht ho,fun _ hw' => absurd hw' hw⟩
  | manualOrder req close => exact ⟨fun x _ => haims x,fun _ s w _ t _ _ hw' => absurd hw' hw⟩
  | _ => trivial

variable [Host]

/-- Every operation of the gateway only does deeds of a custody whose laws hold for its power. -/
theorem Operation.program_keeps (o : Operation) (hK : K.Laws o.power) (h : K.inv s w)
    (ha : o.Admitted K s w) : K.Keeps o.power o.program (fun _ s w => K.inv s w) s w := by
  cases o with
  | poll => exact hK.pollAccountInner_keeps h ha.1 ha.2
  | executeOpen threadId intentId =>
    simp only [program,Meets.read_bind]
    split
    · next t i ht hi =>
      have hstored : (s.thread t.id).getD t=t := by
        rw [Runtime.id_of_thread ht,ht]
        rfl
      by_cases hun : t.unsent
      · obtain ⟨hheld,hpair⟩ := ha t i ht hi hun
        refine hK.executeOpen_keeps ⟨⟨h,fun _ hv => hv.elim⟩,offThread_alone _,hheld⟩ ?_ hpair rfl
        refine hK.takeIntent h ?_
        rw [id_of_intent hi]
        exact hi
      · exact Custody.Laws.executeOpen_refuses (hstored.symm ▸ hun) h
    · exact h
  | approveIntent intentId => exact hK.approveIntent_keeps h rfl intentId ha
  | rejectIntent intentId => exact hK.atOnce_keeps h fun _ h' => hK.rejectIntent_deed h h' ha
  | chatCloseThread threadId => exact hK.atOnce_keeps h fun _ h' => Custody.Laws.chatCloseThread_deed h'
  | closeThread threadId reason => exact hK.closeThread_keeps h threadId reason ha
  | review threadId action => exact hK.applyReview_keeps h threadId action ha
  | halt => exact hK.halt_keeps h rfl ha
  | resume confirm => exact hK.atOnce_keeps h fun _ h' => Custody.Laws.resume_deed rfl h'
  | adoptPosition symbol stop tp => exact hK.adoptPosition_keeps h symbol stop tp ha
  | openThreadFromProposal symbol pr tps mark source force =>
    exact hK.openThreadFromProposal_keeps h rfl _ _ _ _ _ _ ha
  | manualOrder req close => exact hK.manualOrder_keeps h req close (fun hc => by rw [hc]; rfl) ha.1 ha.2
  | scan symbol at_ pr tps mark gates => exact hK.applyProposal_keeps h rfl _ _ _ _ _ _ ha
  | issueConfirmation intentId =>
    exact hK.atOnce_keeps h fun _ h' => Custody.Laws.issueIntentConfirmation_deed h'
  | approve intentId nonce by_ => exact hK.approve_keeps h rfl intentId nonce by_ ha
  | setWorkflow next =>
    have hd : K.Deed .ordinary .control s w { s with workflow := next } :=
      .aside rfl rfl rfl (.inl rfl) (.inl rfl) (.same rfl rfl)
    exact ⟨.deed h hd,hK.deed_inv h hd⟩
  | switchBackend kind =>
    exact Meets.bind (hK.switchBackend_keeps h rfl kind) fun _ _ _ h => h

end TradeGate
