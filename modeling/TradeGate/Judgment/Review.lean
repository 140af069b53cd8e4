import TradeGate.Judgment.Target
import TradeGate.Machine.Run
import TradeGate.Model.Review

/-! Reviews of a thread that changes while the model thinks. -/
namespace TradeGate
open Coop Machine

variable {t : StrategyThread} {a : JudgmentAction}

theorem effect_pendingEntry (h : t.status=.pendingEntry) :
    (reduceReview t a).effect ≠ .none ↔ a=.invalidate := by
  have hnode : nodeFor (some t) false=.reviewPendingEntry := by simp only [nodeFor,h]
  cases a <;> simp [reduceReview,hnode,edgeFor,modelEdges]

theorem effect_inPosition (h : t.status=.inPosition) :
    (reduceReview t a).effect ≠ .none ↔ a=.reduce ∨ a=.exit ∨ a=.invalidate := by
  have hnode : nodeFor (some t) false=.reviewInPosition := by simp only [nodeFor,h]
  cases a <;> simp [reduceReview,hnode,edgeFor,modelEdges]

/-- What a review allows besides holding tells the status that its prompt showed. -/
theorem status_of_allowed {j : Judging} (h : a ∈ allowedActions j.node) (ha : a ≠ .hold) :
    j.thread.status=.pendingEntry ∧ a=.invalidate ∨ j.thread.status=.inPosition := by
  unfold Judging.node nodeFor at h
  cases hst : j.thread.status with
  | pendingEntry =>
    simp only [hst,allowedActions,List.mem_cons,List.not_mem_nil,or_false] at h
    exact .inl ⟨rfl,h.resolve_left ha⟩
  | inPosition => exact .inr rfl
  | closed | canceled | invalidated =>
    simp only [hst,allowedActions] at h
    cases h

namespace ReviewDesk

section

variable {d : ReviewDesk} {e : ReviewEvent}

/-- The thread of a review as it is stored by now, if it is still open. -/
def standing (d : ReviewDesk) (j : Judging) : Option StrategyThread :=
  (d.config.state.thread j.thread.id).filter fun t => t.isOpen

/-- A review has its effect on a thread in the status that its prompt showed. -/
def AppliesWhereJudged (d : ReviewDesk) (e : ReviewEvent) : Prop :=
  ∀ x ∈ d.applied e, ∀ current ∈ d.standing x.1,
    (reduceReview current x.2).effect ≠ .none → current.status=x.1.thread.status

instance (d : ReviewDesk) (e : ReviewEvent) : Decidable (d.AppliesWhereJudged e) :=
  inferInstanceAs (Decidable (∀ x ∈ d.applied e, ∀ current ∈ d.standing x.1, _ → _))

/-- When a review ends with INVALIDATE and its thread is open, nothing gave the thread another open
status while the model was asked. -/
def Unmoved (d : ReviewDesk) (e : ReviewEvent) : Prop :=
  ∀ x ∈ d.applied e, x.2=.invalidate → (d.standing x.1).isSome → x.1.overtaken=false

instance (d : ReviewDesk) (e : ReviewEvent) : Decidable (d.Unmoved e) :=
  inferInstanceAs (Decidable (∀ x ∈ d.applied e, _ → _ → _))

/-- A review that was not overtaken shows the status that its thread still has, if it is open. -/
def Current (d : ReviewDesk) : Prop :=
  ∀ j ∈ d.judging, j.overtaken=false → ∀ t ∈ d.standing j, t.status=j.thread.status

/-- A review applies what its node allows, or holds. -/
theorem allowed_of_applied {x : Judging × JudgmentAction} (h : x ∈ d.applied e) :
    x.2 ∈ allowedActions x.1.node ∨ x.2=.hold := by
  cases e with
  | answered k verdict =>
    obtain ⟨j,-,h⟩ := Option.bind_eq_some_iff.mp h
    obtain ⟨b,hb,h⟩ := Option.bind_eq_some_iff.mp h
    obtain rfl := Option.some.inj h
    unfold Judging.settle at hb
    split at hb
    · next c hc =>
      obtain rfl := Option.some.inj hb
      exact .inl (of_decide_eq_true (Option.filter_eq_some_iff.mp hc).2)
    · split_ifs at hb
      obtain rfl := Option.some.inj hb
      exact .inr rfl
  | _ => cases h

theorem open_of_standing {j : Judging} {current : StrategyThread} (h : current ∈ d.standing j) :
    current.status=.pendingEntry ∨ current.status=.inPosition :=
  of_decide_eq_true (Option.filter_eq_some_iff.mp h).2

theorem mem_of_applied {x : Judging × JudgmentAction} (h : x ∈ d.applied e) : x.1 ∈ d.judging := by
  cases e with
  | answered k verdict =>
    obtain ⟨j,hj,h⟩ := Option.bind_eq_some_iff.mp h
    obtain ⟨b,-,h⟩ := Option.bind_eq_some_iff.mp h
    obtain rfl := Option.some.inj h
    exact List.mem_of_getElem? hj
  | _ => cases h

/-- Only INVALIDATE has an effect at both nodes; any other answer finds the status of its prompt. -/
theorem applies_of_current (hcur : d.Current) (h : d.Unmoved e) : d.AppliesWhereJudged e := by
  intro x hx current hc heffect
  by_cases ha : x.2=.invalidate
  · exact hcur x.1 (mem_of_applied hx) (h x hx ha (Option.isSome_of_mem hc)) current hc
  · have hst : current.status=.inPosition := (open_of_standing hc).resolve_left fun hst =>
      ha ((effect_pendingEntry hst).mp heffect)
    have hhold : x.2 ≠ .hold := by
      intro heq
      simp [effect_inPosition hst,heq] at heffect
    rcases status_of_allowed ((allowed_of_applied hx).resolve_right hhold) hhold with ⟨-,hj⟩|hj
    · exact absurd hj ha
    · exact hst.trans hj.symm

theorem marked_thread (s s' : Runtime) (j : Judging) : (j.marked s s').thread=j.thread := by
  unfold Judging.marked
  split <;> rfl

/-- A review that a step leaves unmarked was unmarked, and an open thread has the status it had. -/
theorem unmarked {s s' : Runtime} {j : Judging} (h : (j.marked s s').overtaken=false) :
    j.overtaken=false ∧ ∀ t ∈ s'.thread j.thread.id, t.isOpen →
      ∃ u ∈ s.thread j.thread.id, u.status=t.status := by
  unfold Judging.marked at h
  split at h
  · cases h
  next hno =>
    refine ⟨h,fun t ht ho => ?_⟩
    by_contra hall
    push Not at hall
    exact hno ⟨t,ht,ho,hall⟩

end

variable [Host]

/-- A review that waits after an event waited before it, or begins with the thread as it is stored. -/
theorem of_mem_next {d : ReviewDesk} {e : ReviewEvent} {j : Judging} (h : j ∈ (d.next e).judging) :
    (∃ i ∈ d.judging, i.thread=j.thread ∧ i.overtaken=j.overtaken) ∨
      (d.next e).config=d.config ∧ d.config.state.thread j.thread.id=some j.thread := by
  cases e with
  | move m =>
    have hsame : (d.moved m).judging=d.judging := by
      unfold moved
      split <;> rfl
    exact .inl ⟨j,hsame ▸ h,rfl,rfl⟩
  | begin threadId =>
    rcases List.mem_append.mp h with h|h
    · exact .inl ⟨j,h,rfl,rfl⟩
    · obtain ⟨t,ht,rfl⟩ := Option.map_eq_some_iff.mp (Option.mem_toList.mp h)
      exact .inr ⟨rfl,Runtime.id_of_thread ht ▸ ht⟩
  | answered k verdict =>
    simp only [next] at h
    split at h
    · exact .inl ⟨j,List.mem_of_mem_eraseIdx h,rfl,rfl⟩
    · obtain ⟨n,hn⟩ := List.mem_iff_getElem?.mp h
      rw [List.getElem?_modify] at hn
      obtain ⟨i,hi,rfl⟩ := Option.map_eq_some_iff.mp hn
      refine .inl ⟨i,List.mem_of_getElem? hi,?_⟩
      split <;> exact ⟨rfl,rfl⟩
  | failed k => exact .inl ⟨j,List.mem_of_mem_eraseIdx h,rfl,rfl⟩

theorem step_current {d : ReviewDesk} (h : d.Current) (e : ReviewEvent) : (d.step e).Current := by
  intro j' hj' hfree t ht
  obtain ⟨j,hj,rfl⟩ := List.mem_map.mp hj'
  obtain ⟨hj₀,hstatus⟩ := unmarked hfree
  have hsame := marked_thread d.config.state (d.next e).config.state j
  rw [standing,hsame] at ht
  rw [hsame]
  obtain ⟨ht,ho⟩ := Option.filter_eq_some_iff.mp ht
  have hopen : t.isOpen := of_decide_eq_true ho
  obtain ⟨u,hu,hut⟩ := hstatus t ht hopen
  rcases of_mem_next hj with ⟨i,hi,hthread,hmark⟩|⟨hc,hstored⟩
  · have huo : u.isOpen := by
      rw [StrategyThread.isOpen,hut]
      exact hopen
    have hstand : u ∈ d.standing i := by
      rw [standing,hthread]
      exact Option.filter_eq_some_iff.mpr ⟨hu,decide_eq_true huo⟩
    rw [← hut,h i hi (hmark.trans hj₀) u hstand,hthread]
  · rw [Option.mem_def,hstored,Option.some.injEq] at hu
    rw [← hut,hu]

/-- In every run of the gateway and its reviews, every review has its effect on the status that its
prompt showed, as long as no INVALIDATE comes back for an open thread that was given another open
status while the model was asked. -/
theorem review_where_judged (c : Config Runtime Unit Writer Call Answer String Operation)
    (es : List ReviewEvent) (h : Throughout step Unmoved ⟨c,[]⟩ es) :
    Throughout step AppliesWhereJudged ⟨c,[]⟩ es := by
  have hnone : Current ⟨c,[]⟩ := fun j hj => absurd hj List.not_mem_nil
  exact throughout_of_invariant (I := Current) (fun _ e hc _ => step_current hc e)
    (fun _ _ hc hu => applies_of_current hc hu) hnone h

end ReviewDesk

section scripts

/-- The entry rests. -/
def restAnswer : (q : Call) → Answer q
  | .placeEntry _ => ⟨.submitted,none,none⟩
  | q => fillAnswer q

/-- The entry was filled. -/
def foundAnswer : (q : Call) → Answer q
  | .account => .ok ⟨.demo,"1000",[⟨"BTCUSDT",.long,"1","77000","77000",5⟩],[]⟩
  | .getOrder _ _ => .ok (some ⟨.filled,some "77000","0.01"⟩)
  | q => fillAnswer q

def servedMoves (answer : (q : Call) → Answer q) : ℕ → List (Move Runtime Unit Call Answer Operation)
  | 0 => []
  | n+1 => .serve 0 answer id::.resume 0::servedMoves answer n

theorem timely_servedMoves (answer : (q : Call) → Answer q) (n : ℕ) :
    (servedMoves answer n).Forall Timely := by
  induction n with
  | zero => trivial
  | succ n ih => exact List.forall_cons _ _ _ |>.mpr ⟨trivial,List.forall_cons _ _ _ |>.mpr ⟨trivial,ih⟩⟩

/-- A scan rests its entry. -/
def restMoves : List (Move Runtime Unit Call Answer Operation) :=
  .start (scanWith ["79000"])::servedMoves restAnswer 12

/-- A minute later a poll of the account finds the entry filled. -/
def foundMoves : List (Move Runtime Unit Call Answer Operation) :=
  .drift Runtime.later id::.start .poll::servedMoves foundAnswer 12

theorem timely_restMoves : restMoves.Forall Timely :=
  List.forall_cons _ _ _ |>.mpr ⟨trivial,timely_servedMoves restAnswer 12⟩

theorem timely_foundMoves : foundMoves.Forall Timely :=
  List.forall_cons _ _ _ |>.mpr ⟨fun _ => ⟨61000,rfl⟩,
    List.forall_cons _ _ _ |>.mpr ⟨trivial,timely_servedMoves foundAnswer 12⟩⟩

/-- The review of the resting entry is on when the entry is filled, and ends with INVALIDATE. -/
def overtakenReview : List ReviewEvent :=
  restMoves.map .move++.begin "thr-0"::foundMoves.map .move++[.answered 0 (some .invalidate)]

/-- The gateway polls while the model looks at the resting entry, and the review ends with INVALIDATE. -/
def steadyReview : List ReviewEvent :=
  restMoves.map .move++.begin "thr-0"::(.start .poll::servedMoves restAnswer 4).map .move++
    [.answered 0 (some .invalidate)]

end scripts

/-- The withdrawal is that of an entry that still rests. -/
theorem resting_entry_withdrawn : letI := oneDigest
    Throughout ReviewDesk.step ReviewDesk.AppliesWhereJudged
      ⟨⟨Runtime.fresh .demo someWorkflow 100000000,(),[]⟩,[]⟩ steadyReview :=
  @ReviewDesk.review_where_judged oneDigest _ _ (by decide +kernel)

/-- The withdrawal of an entry that was filled while the model thought closes the position. -/
theorem filled_entry_closed_by_withdrawal : ¬∀ [Host] (backend : Backend) (workflow : Workflow)
    (now : ℕ) (es : List ReviewEvent), es.Forall ReviewEvent.Timely →
      Throughout ReviewDesk.step ReviewDesk.AppliesWhereJudged
        ⟨⟨Runtime.fresh backend workflow now,(),[]⟩,[]⟩ es := by
  intro hall
  let := oneDigest
  have hmoves : ∀ ms : List (Move Runtime Unit Call Answer Operation), ms.Forall Timely →
      (ms.map ReviewEvent.move).Forall ReviewEvent.Timely := fun ms h =>
    (List.forall_map_iff ReviewEvent.move).mpr h
  have htimely : overtakenReview.Forall ReviewEvent.Timely := by
    refine List.forall_append.mpr ⟨List.forall_append.mpr ⟨hmoves _ timely_restMoves,?_⟩,trivial⟩
    exact List.forall_cons _ _ _ |>.mpr ⟨trivial,hmoves _ timely_foundMoves⟩
  exact absurd (hall .demo someWorkflow 100000000 overtakenReview htimely) (by decide +kernel)

end TradeGate
