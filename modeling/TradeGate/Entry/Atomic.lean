import TradeGate.Approval.Reject

/-! `executeOpen` before its entry is sent: the client order id and the in-flight mark are stored
first, and every refusal takes them back; an account read that rejects does not. -/
namespace TradeGate
open Coop Contract

/-- The intent was rejected or failed and the thread canceled. -/
def Runtime.calledOff (s : Runtime) (threadId intentId : String) : Prop :=
  (∃ i ∈ s.intent intentId, i.status=.rejected ∨ i.status=.failed) ∧ s.hasStatus threadId .canceled

instance (s : Runtime) (threadId intentId : String) : Decidable (s.calledOff threadId intentId) :=
  inferInstanceAs (Decidable ((∃ i ∈ s.intent intentId, _) ∧ _))

/-- The stored thread carries neither an entry id nor the mark of an entry being sent. -/
def Runtime.unmarked (s : Runtime) (threadId : String) : Prop :=
  ∀ t ∈ s.thread threadId, t.entryClientOrderId=none ∧ t.entrySubmittingSince=none

instance (s : Runtime) (threadId : String) : Decidable (s.unmarked threadId) :=
  inferInstanceAs (Decidable (∀ t ∈ s.thread threadId, _))

/-- What a call that sends nothing may leave behind: an opening called off, or both records as
they were, without a trace of the call. -/
def Runtime.AtomicOpen (s s' : Runtime) (threadId intentId : String) : Prop :=
  s'.calledOff threadId intentId ∨
    (s'.thread threadId=s.thread threadId ∧ s'.intent intentId=s.intent intentId ∧
      s'.unmarked threadId)

instance (s s' : Runtime) (threadId intentId : String) :
    Decidable (s.AtomicOpen s' threadId intentId) := inferInstanceAs (Decidable (_ ∨ _ ∧ _ ∧ _))

/-- The run of a program sent no entry. -/
def SentNoEntry {ω : Type} (tr : List (Event Runtime ω Writer Call Answer)) : Prop :=
  ∀ q ∈ requests tr, q.entry?=none

instance {ω : Type} (tr : List (Event Runtime ω Writer Call Answer)) : Decidable (SentNoEntry tr) :=
  inferInstanceAs (Decidable (∀ q ∈ requests tr, _))

/-- Every account read of the run was answered. -/
def AccountAnswered {ω : Type} (tr : List (Event Runtime ω Writer Call Answer)) : Prop :=
  ∀ e s w s' w', Event.call Call.account (Except.error e) s w s' w' ∉ tr

/-- While an account read that rejects is under way, nobody else stores the thread. -/
def LeftAlone {ω : Type} (threadId : String) (tr : List (Event Runtime ω Writer Call Answer)) :
    Prop :=
  ∀ e s w s' w', Event.call Call.account (Except.error e) s w s' w' ∈ tr →
    s'.thread threadId=s.thread threadId

/-- No request is an account read. -/
def readless (ω : Type) : Contract Runtime ω Writer Call Answer where
  may _ _ q := q ≠ .account
  write _ _ _ _ := True
  back _ _ _ _ _ _ := True

section
variable {ω : Type} {t minted : StrategyThread} {intent : DemoIntent} {cid why : String}
  {s s' : Runtime} {w w' : ω} {tr : List (Event Runtime ω Writer Call Answer)}

theorem accountAnswered_of_readless {α : Type} {p : RT α} {x : Except String α}
    (hp : (readless ω).Meets p (fun _ _ _ => True) s w) (h : Exec p s w tr x s' w') :
    AccountAnswered tr :=
  fun _ _ _ _ _ he => (hp.exec h fun e _ => by cases e <;> trivial).1 _ he rfl

theorem sizingRefusal_readless {fresh : AccountView} :
    (readless ω).Meets (sizingRefusal t intent fresh) (fun _ _ _ => True) s w := by
  unfold sizingRefusal
  split
  · simp only [Meets.request_bind]
    refine ⟨(by rintro ⟨⟩),fun r s w _ => ?_⟩
    cases r with
    | error e => trivial
    | ok m => exact ⟨trivial,trivial⟩
  · trivial

theorem armRefusal_readless :
    (readless ω).Meets (armRefusal t) (fun _ _ _ => True) s w := by
  simp only [armRefusal,Meets.request_bind]
  refine ⟨(by rintro ⟨⟩),fun lev s w _ => ?_⟩
  split
  · trivial
  · simp only [Meets.request_bind]
    refine ⟨(by rintro ⟨⟩),fun mt s w _ => ?_⟩
    split <;> trivial

theorem sizingRefusal_total {fresh : AccountView} {e : String} :
    ¬Exec (sizingRefusal t intent fresh) s w tr (.error e) s' w' := by
  unfold sizingRefusal
  intro h
  split at h
  · simp only [Prog.request_bind,Exec.await_iff] at h
    obtain ⟨r,s₁,w₁,tr',-,h⟩ := h
    cases r <;> simp [Exec.get_iff] at h
  · simp at h

theorem armRefusal_total {e : String} : ¬Exec (armRefusal t) s w tr (.error e) s' w' := by
  unfold armRefusal
  intro h
  simp only [Prog.request_bind,Exec.await_iff] at h
  obtain ⟨lev,s₁,w₁,tr₁,-,h⟩ := h
  split at h
  · simp at h
  · simp only [Exec.await_iff] at h
    obtain ⟨mt,s₂,w₂,tr₂,-,h⟩ := h
    split at h <;> simp at h

/-- What is checked once the account is known. -/
theorem checks_after_account {fresh : AccountView} {x : Except String (Option String)}
    (h : Exec (sizingRefusal t intent fresh >>= fun
      | some why => pure (some why)
      | none => armRefusal t) s w tr x s' w') : ∃ why, x=.ok why := by
  rcases Exec.bind_iff.mp h with ⟨a,s₂,w₂,t₁,t₂,-,-,h⟩|⟨e,-,h⟩
  · cases a with
    | some why => exact ⟨_,(Exec.done_iff.mp h).2.1⟩
    | none =>
      cases x with
      | ok why => exact ⟨why,rfl⟩
      | error e => exact absurd h armRefusal_total
  · exact absurd h sizingRefusal_total

/-- The checks before the entry throw only when the account read does, which is their first
await. -/
theorem openingRefusal_account {x : Except String (Option String)}
    (h : Exec (openingRefusal t intent) s w tr x s' w') :
    (AccountAnswered tr ∧ ∃ why, x=.ok why) ∨
      ∃ e, x=.error e ∧ tr=[Event.call Call.account (Except.error e) s w s' w'] := by
  simp only [openingRefusal,Prog.request_bind,Exec.await_iff] at h
  obtain ⟨r,s₁,w₁,tr₁,rfl,h⟩ := h
  cases r with
  | error e =>
    obtain ⟨rfl,rfl,rfl,rfl⟩ := Exec.fail_iff.mp h
    exact .inr ⟨e,rfl,rfl⟩
  | ok fresh =>
    simp only [orThrow,Prog.done_bind,Prog.update_bind,Prog.read_bind,Exec.get_iff,
      Exec.put_iff] at h
    obtain ⟨tr₂,rfl,h⟩ := h
    refine .inl ⟨?_,?_⟩
    · have h₂ : AccountAnswered tr₂ := by
        refine accountAnswered_of_readless ?_ h
        split
        · trivial
        · refine Meets.bind sizingRefusal_readless fun a s w _ => ?_
          cases a
          · exact armRefusal_readless
          · trivial
      intro e s w s' w' he
      simp only [List.mem_cons,reduceCtorEq,false_or] at he
      rcases he with he|he
      · cases he
      · exact h₂ _ _ _ _ _ he
    · split at h
      · exact ⟨_,(Exec.done_iff.mp h).2.1⟩
      · exact checks_after_account h

/-- A refused opening is called off, whatever was stored meanwhile. -/
theorem abortOpen_calledOff {x : Except String Unit}
    (h : Exec (abortOpen t intent why) s w tr x s' w') : s'.calledOff t.id intent.id := by
  simp only [abortOpen,updateIntent,storedOr,saveThread,Prog.update_bind,Prog.read_bind,Prog.pure_eq,
    Prog.done_bind,Prog.get_bind,Prog.put_bind,Exec.get_iff,Exec.put_iff] at h
  obtain ⟨tr₁,-,h⟩ := h
  simp only [Prog.update,Exec.get_iff,Exec.put_iff,Exec.done_iff] at h
  obtain ⟨tr₂,-,-,-,rfl,-⟩ := h
  refine ⟨⟨{ intent with status := .rejected, error := some why },?_,.inl rfl⟩,?_⟩
  · exact Keyed.Table.lookup_upsert_self _ _
  · rw [Runtime.hasStatus_saveThread,if_pos]
    cases hs : s.thread t.id with
    | none => simp [hs]
    | some u => simpa [hs] using Runtime.id_of_thread hs

/-- Once nothing stands against it the entry is sent. -/
theorem submitEntry_sends [Host] {x : Except String Unit}
    (h : Exec (submitEntry t minted cid intent) s w tr x s' w') : ¬SentNoEntry tr := by
  unfold submitEntry sendEntry at h
  simp only [Prog.read_bind,Prog.get_bind,Exec.get_iff] at h
  split at h
  · obtain ⟨r,s₁,w₁,tr₁,rfl,-⟩ := Exec.await_iff.mp h
    exact fun hn => by cases hn _ List.mem_cons_self
  · simp only [saveThread,bind_assoc,Prog.update_bind,Prog.get_bind,Prog.put_bind,Exec.get_iff,
      Exec.put_iff] at h
    obtain ⟨tr₁,rfl,h⟩ := h
    obtain ⟨r,s₁,w₁,tr₂,rfl,-⟩ := Exec.await_iff.mp h
    exact fun hn => by cases hn _ List.mem_cons_self

theorem accountAnswered_append {t₁ t₂ : List (Event Runtime ω Writer Call Answer)} :
    AccountAnswered (t₁++t₂) ↔ AccountAnswered t₁ ∧ AccountAnswered t₂ := by
  simp only [AccountAnswered,List.mem_append,not_or,forall_and]

theorem abortOpen_readless : (readless ω).Meets (abortOpen t intent why) (fun _ _ _ => True) s w :=
  ⟨trivial,trivial,trivial⟩

/-- A call that has minted its entry id and sends nothing is atomic exactly when its account read
was answered. -/
theorem minted_atomic_iff [Host] {s₀ : Runtime} {x : Except String Unit}
    (h : Exec (openingRefusal t intent >>= fun
      | some why => abortOpen t intent why
      | none => submitEntry t minted cid intent) s w tr x s' w')
    (hn : SentNoEntry tr) (ha : LeftAlone t.id tr)
    (hm : ∃ u, s.thread t.id=some u ∧ u.status=.pendingEntry ∧ u.entryClientOrderId=some cid) :
    s₀.AtomicOpen s' t.id intent.id ↔ AccountAnswered tr := by
  rcases Exec.bind_iff.mp h with ⟨a,s₁,w₁,t₁,t₂,rfl,h₁,h₂⟩|⟨e,rfl,h₁⟩
  · have hans : AccountAnswered t₁ := by
      rcases openingRefusal_account h₁ with h|⟨e,he,-⟩
      · exact h.1
      · cases he
    cases a with
    | some why =>
      exact iff_of_true (.inl (abortOpen_calledOff h₂))
        (accountAnswered_append.mpr ⟨hans,accountAnswered_of_readless abortOpen_readless h₂⟩)
    | none =>
      refine absurd ?_ (submitEntry_sends h₂)
      exact fun q hq => hn q (by rw [requests_append]; exact List.mem_append_right _ hq)
  · rcases openingRefusal_account h₁ with ⟨-,why,hw⟩|⟨e',-,rfl⟩
    · cases hw
    · obtain ⟨u,hu,hst,hcid⟩ := hm
      have hu' : s'.thread t.id=some u := (ha _ _ _ _ _ List.mem_cons_self).trans hu
      refine iff_of_false ?_ fun hans => hans _ _ _ _ _ List.mem_cons_self
      rintro (⟨-,v,hv,hc⟩|⟨-,-,hv⟩)
      · rw [hu'] at hv
        cases hv
        rw [hst] at hc
        cases hc
      · have := (hv u hu').1
        rw [hcid] at this
        cases this

end

/-- A call that ends without sending its entry leaves the opening called off, or both records as
they were, exactly when its account read was answered; a call that is refused at once leaves what
it found. -/
theorem executeOpen_atomic_iff [Host] {ω : Type} {threadIn : StrategyThread} {intent : DemoIntent}
    {s s' : Runtime} {w w' : ω} {tr : List (Event Runtime ω Writer Call Answer)}
    {x : Except String Unit} (h : Exec (executeOpen threadIn intent) s w tr x s' w')
    (hn : SentNoEntry tr) (ha : LeftAlone threadIn.id tr) :
    s.AtomicOpen s' threadIn.id intent.id ↔
      if ((s.thread threadIn.id).getD threadIn).unsent then AccountAnswered tr
      else s.calledOff threadIn.id intent.id ∨ s.unmarked threadIn.id := by
  have hid : ((s.thread threadIn.id).getD threadIn).id=threadIn.id := by
    cases ht : s.thread threadIn.id with
    | none => rfl
    | some u => exact Runtime.id_of_thread ht
  simp only [executeOpen,storedOr,Prog.read_bind,Prog.get_bind,Prog.pure_eq,Prog.done_bind,
    Exec.get_iff] at h
  generalize hcur : (s.thread threadIn.id).getD threadIn=t at hid h ⊢
  split at h
  · next hg =>
    obtain ⟨rfl,-,rfl,-⟩ := Exec.fail_iff.mp h
    have hu : ¬t.unsent := by
      rintro ⟨hp,hc⟩
      rw [hp,hc] at hg
      simp at hg
    rw [if_neg hu]
    exact or_congr Iff.rfl ⟨fun h => h.2.2,fun h => ⟨rfl,rfl,h⟩⟩
  · next hg =>
    have hu : t.unsent := by
      rw [not_or,not_not,Option.not_isSome_iff_eq_none] at hg
      exact hg
    rw [if_pos hu]
    simp only [updateIntent,saveThread,Prog.update_bind,Prog.get_bind,Prog.put_bind,
      Prog.pure_eq,Prog.done_bind,Exec.get_iff,Exec.put_iff] at h
    obtain ⟨t₁,rfl,t₂,rfl,h⟩ := h
    have hn' : SentNoEntry t₂ := hn
    have ha' : LeftAlone t.id t₂ := fun e s w s' w' he => by
      rw [hid]
      exact ha e s w s' w' (List.mem_cons_of_mem _ (List.mem_cons_of_mem _ he))
    have hm : s.AtomicOpen _ _ _ ↔ _ :=
      minted_atomic_iff h hn' ha' ⟨_,Runtime.thread_saveThread_self _ _,hu.1,rfl⟩
    rw [hid] at hm
    rw [hm]
    simp [AccountAnswered]

section scripts

/-- The thread and the intent of the opening the chat proposed. -/
def chatThread : StrategyThread :=
  ((stateAfter chatProposalMoves).thread "thr-0").get (by decide +kernel)

def chatIntent : DemoIntent :=
  ((stateAfter chatProposalMoves).intent "int-0").get (by decide +kernel)

/-- The proposed opening executed with the given answers, while nothing else happens. -/
def executedProposal (r : Replies) :
    List (Event Runtime Unit Writer Call Answer) × Except String Unit × Runtime :=
  letI := oneDigest
  Exec.play (fun _ => r.answer) (fun _ => id) () (executeOpen chatThread chatIntent) 0
    (stateAfter chatProposalMoves)

/-- The account answers, the market data of the last gate does not. -/
def marketLost : Replies := { replies with account := .ok ⟨.demo,"1000",[],[]⟩ }

/-- The account does not answer. -/
def accountLost : Replies := { replies with account := .error "timeout" }

theorem executedProposal_leftAlone (r : Replies) (threadId : String) :
    LeftAlone threadId (executedProposal r).1 := by
  intro e s w s' w' he
  obtain ⟨-,-,rfl⟩ := Exec.call_mem_play _ _ _ he
  rfl

end scripts

theorem refused_opening_called_off : (stateAfter chatProposalMoves).AtomicOpen
    (executedProposal marketLost).2.2 chatThread.id chatIntent.id := by
  let := oneDigest
  refine (executeOpen_atomic_iff (Exec.of_play _ _ _ _ _ _) (by decide +kernel)
    (executedProposal_leftAlone _ _)).mpr ?_
  rw [if_pos (by decide +kernel)]
  intro e s w s' w' he
  obtain ⟨m,hr,-⟩ := Exec.call_mem_play _ _ _ he
  cases hr

/-- An account read that rejects leaves a pending thread with the id and the mark of an entry that
was never sent. -/
theorem lost_account_leaves_mark : ¬∀ (h : Host) (s : Runtime), @Reachable h s →
    ∀ threadIn ∈ s.threads.rows, ∀ intent ∈ s.intents.rows,
      ∀ (tr : List (Event Runtime Unit Writer Call Answer)) (x : Except String Unit) (s' : Runtime),
        Exec (@executeOpen h threadIn intent) s () tr x s' () → SentNoEntry tr →
          s.AtomicOpen s' threadIn.id intent.id := by
  intro hall
  let := oneDigest
  have hreach : Reachable (stateAfter chatProposalMoves) :=
    reachable_of_play ⟨trivial,trivial,trivial,trivial,trivial,trivial,trivial⟩
  have hp : Exec (executeOpen chatThread chatIntent) (stateAfter chatProposalMoves) ()
      (executedProposal accountLost).1 _ (executedProposal accountLost).2.2 () :=
    Exec.of_play _ _ _ _ _ _
  exact absurd (hall oneDigest _ hreach chatThread (by decide +kernel) chatIntent
    (by decide +kernel) _ _ _ hp (by decide +kernel)) (by decide +kernel)

end TradeGate
