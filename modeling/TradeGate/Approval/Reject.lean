import TradeGate.Patrol.Unprotected

/-! Rejecting a proposal.  `rejectIntent` cancels the thread of the intent whatever the intent
proposes and whatever has become of the thread. -/
namespace TradeGate
open Coop

namespace Runtime

/-- Every thread keeps its status, but for unsent ones that are canceled. -/
def OnlyCancelsUnsent (s s' : Runtime) : Prop := ∀ id, ∀ t ∈ s.thread id, ∃ t' ∈ s'.thread id,
  t'.status=t.status ∨ (t.unsent ∧ t'.status=.canceled)

/-- The thread of an intent, as it is stored. -/
def threadOf (s : Runtime) (intentId : String) : Option StrategyThread :=
  ((s.intent intentId).bind DemoIntent.threadId).bind s.thread

theorem rejectIntent_ok {s : Runtime} {intentId : String} :
    (∃ s', s.rejectIntent intentId=.ok s') ↔
      ∃ intent ∈ s.intent intentId, intent.status=.pendingApproval := by
  unfold rejectIntent
  cases hi : s.intent intentId with
  | none => simp
  | some intent =>
    by_cases hs : intent.status=.pendingApproval
    · simp only [hs,ne_eq,not_true_eq_false,if_false,Option.mem_some_iff,exists_eq_left',iff_true]
      split <;> exact ⟨_,rfl⟩
    · simp [hs]

/-- What a rejection does to the threads: the thread of the intent becomes canceled, the others
stay. -/
theorem thread_of_rejectIntent {s s' : Runtime} {intentId : String}
    (h : s.rejectIntent intentId=.ok s') (id : String) :
    s'.thread id=match s.threadOf intentId with
      | none => s.thread id
      | some t => if t.id=id then some (bump { t with
          status := .canceled
          closedAt := some s.now
          closeReason := some "用户拒绝了提议" } s.now) else s.thread id := by
  obtain ⟨intent,hi,hs⟩ := rejectIntent_ok.mp ⟨s',h⟩
  have hi' : s.intent intentId=some intent := hi
  have hto : s.threadOf intentId=intent.threadId.bind s.thread := by
    rw [threadOf,hi',Option.bind_some]
  simp only [rejectIntent,hi',hs,ne_eq,not_true_eq_false,if_false] at h
  have hb : (intent.threadId.bind (s.saveIntent { intent with
      status := .rejected, error := some "用户拒绝" }).thread)=intent.threadId.bind s.thread := rfl
  cases ht : intent.threadId.bind s.thread with
  | none =>
    rw [hb,ht] at h
    cases h
    rw [hto,ht]
    rfl
  | some t =>
    rw [hb,ht] at h
    cases h
    rw [hto,ht]
    exact thread_saveThread _ _ _

end Runtime

section scripts

/-- A flat account on which the chat proposes a long position. -/
def chatProposalMoves : List (Move Runtime Unit Call Answer Operation) :=
  let answer := { replies with account := .ok ⟨.demo,"1000",[],[]⟩ : Replies }.answer
  [.start (.openThreadFromProposal "BTCUSDT" ⟨.long,.market,none,some "90"⟩ [] "100" .chat true),
    .serve 0 answer id,.resume 0,.serve 0 answer id,.resume 0,.serve 0 answer id,.resume 0]

/-- An adopted position whose close was proposed in the chat. -/
def proposedCloseMoves : List (Move Runtime Unit Call Answer Operation) :=
  adoptMoves++[.start (.chatCloseThread "thr-0")]

end scripts

/-- Rejecting an intent leaves every thread's status alone, apart from unsent entries it cancels,
exactly when the intent's thread is canceled already or its entry was never sent. -/
theorem rejectIntent_onlyCancelsUnsent_iff {s s' : Runtime} {intentId : String}
    (h : s.rejectIntent intentId=.ok s') : s.OnlyCancelsUnsent s' ↔
      ∀ t ∈ s.threadOf intentId, t.status=.canceled ∨ t.unsent := by
  have hthread := Runtime.thread_of_rejectIntent h
  cases ht : s.threadOf intentId with
  | none =>
    simp only [ht] at hthread
    refine iff_of_true (fun id t hid => ⟨t,?_,.inl rfl⟩) (by simp)
    rw [hthread]
    exact hid
  | some t =>
    simp only [ht] at hthread
    have hstored : s.thread t.id=some t := by
      obtain ⟨tid,-,h'⟩ := Option.bind_eq_some_iff.mp ht
      rw [Runtime.id_of_thread h']
      exact h'
    constructor
    · intro hk u hu
      cases hu
      obtain ⟨t',ht',hst⟩ := hk t.id t hstored
      rw [hthread,if_pos rfl] at ht'
      cases ht'
      exact hst.imp Eq.symm And.left
    · intro hc id u hu
      rw [hthread]
      by_cases hid : t.id=id
      · rw [if_pos hid]
        subst hid
        rw [hstored] at hu
        cases hu
        refine ⟨_,rfl,(hc t rfl).imp Eq.symm fun hu => ⟨hu,rfl⟩⟩
      · rw [if_neg hid]
        exact ⟨u,hu,.inl rfl⟩

theorem rejected_open_cancels_unsent : ∃ s',
    (stateAfter chatProposalMoves).rejectIntent "int-0"=.ok s' ∧
      (stateAfter chatProposalMoves).OnlyCancelsUnsent s' := by
  obtain ⟨s',hs⟩ := Runtime.rejectIntent_ok.mpr
    (show ∃ i ∈ (stateAfter chatProposalMoves).intent "int-0",i.status=.pendingApproval by
      decide +kernel)
  exact ⟨s',hs,(rejectIntent_onlyCancelsUnsent_iff hs).mpr (by decide +kernel)⟩

theorem rejected_close_orphans_position : ¬∀ (h : Host) (s : Runtime), @Reachable h s →
    ∀ (intentId : String) (s' : Runtime), s.rejectIntent intentId=.ok s' →
      s.OnlyCancelsUnsent s' := by
  intro hall
  let := oneDigest
  have hreach : Reachable (stateAfter proposedCloseMoves) :=
    reachable_of_play ⟨trivial,trivial,trivial,trivial,trivial,trivial⟩
  obtain ⟨s',hs⟩ := Runtime.rejectIntent_ok.mpr
    (show ∃ i ∈ (stateAfter proposedCloseMoves).intent "int-0",i.status=.pendingApproval by
      decide +kernel)
  obtain ⟨t,ht,hin⟩ : (stateAfter proposedCloseMoves).hasStatus "thr-0" .inPosition := by
    decide +kernel
  obtain ⟨u,hu,hid⟩ : ∃ u ∈ (stateAfter proposedCloseMoves).threadOf "int-0",u.id="thr-0" := by
    decide +kernel
  obtain ⟨t',ht',hst⟩ := hall oneDigest _ hreach _ s' hs "thr-0" t ht
  have hu' : (stateAfter proposedCloseMoves).threadOf "int-0"=some u := hu
  simp only [Runtime.thread_of_rejectIntent hs,hu',hid,if_true] at ht'
  cases ht'
  rcases hst with hst|⟨⟨hp,-⟩,-⟩
  · rw [hin] at hst
    cases hst
  · rw [hin] at hp
    cases hp

end TradeGate
