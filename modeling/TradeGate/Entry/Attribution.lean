import TradeGate.Entry.Atomic
import TradeGate.Entry.Footprint

/-! What becomes of an entry that filled, wholly or in part: in a pass of the account poll, and when
an unknown receipt is looked up. -/
namespace TradeGate
open Coop

section pass
variable {t : StrategyThread} {f : ThreadFacts} {o : OrderStatusView}

/-- The order is at its end. -/
def OrderStatus.terminal (s : OrderStatus) : Prop := s=.filled ∨ s.dead

instance (s : OrderStatus) : Decidable s.terminal := inferInstanceAs (Decidable (_ ∨ _))

/-- The thread has left its entry, or carries a flag. -/
def StrategyThread.attended (t : StrategyThread) : Prop :=
  t.status=.inPosition ∨ t.status=.canceled ∨ t.status=.closed ∨ t.attention ≠ none

instance (t : StrategyThread) : Decidable t.attended := inferInstanceAs (Decidable (_ ∨ _ ∨ _ ∨ _))

/-- The thread holds its position, with what the order executed for its quantity. -/
def StrategyThread.attributed (t : StrategyThread) (o : OrderStatusView) : Prop :=
  t.status=.inPosition ∧ Js.number t.qty=Js.number o.executedQty

instance (t : StrategyThread) (o : OrderStatusView) : Decidable (t.attributed o) :=
  inferInstanceAs (Decidable (_ ∧ _))

theorem OrderStatus.dead.not_filled {s : OrderStatus} (h : s.dead) : s ≠ .filled := by
  rintro rfl
  revert h
  decide

theorem orderFilled_of_dead (h : o.status.dead) : ¬orderFilled o := by
  intro hf
  cases hf with
  | inl hf => exact h.not_filled hf
  | inr hf =>
    rw [hf] at h
    revert h
    decide

theorem reconcilePending_fill {p : PositionView} (ho : f.entryOrder=.answered (some o))
    (hf : orderFilled o) (hp : f.position=some p) (hs : p.side=t.side) :
    reconcilePending t f=fillEntry t f o p := by
  simp [reconcilePending,EntryLookup.order,Option.filter_some,ho,hf,hp,hs]

/-- An order that filled without a position of the thread's side is only noted as found. -/
theorem reconcilePending_absent (hc : t.entryClientOrderId.isSome) (ho : f.entryOrder=.answered (some o))
    (hf : orderFilled o) (hm : ¬posMatches t f) : reconcilePending t f=lookedUp t f (some o) := by
  cases hp : f.position with
  | none => simp [reconcilePending,EntryLookup.order,Option.filter_some,ho,hf,hp,hc]
  | some p =>
    have hs : p.side ≠ t.side := fun hs => hm ⟨p,hp,hs⟩
    simp [reconcilePending,EntryLookup.order,Option.filter_some,ho,hf,hp,hc,hs]

/-- A position on the symbol of an order that is not seen as filled is taken for another's. -/
theorem reconcilePending_foreign {p : PositionView} (ho : f.entryOrder=.answered (some o))
    (hf : ¬orderFilled o) (hp : f.position=some p) :
    reconcilePending t f=if t.entryClientOrderId.isSome then foreignPosition t f else unchanged t := by
  simp [reconcilePending,EntryLookup.order,Option.filter_some,ho,hf,hp]

theorem reconcilePending_bare (hc : t.entryClientOrderId.isSome) (ho : f.entryOrder=.answered (some o))
    (hp : f.position=none) : reconcilePending t f=lookedUp t f (some o) := by
  simp [reconcilePending,EntryLookup.order,ho,hp,hc]

theorem attended_foreignPosition (hg : ¬withinSubmitGrace t f.now) :
    (foreignPosition t f).next.attended := by
  refine .inr (.inr (.inr ?_))
  rw [foreignPosition,if_neg fun h => hg h.2]
  split
  · exact Option.some_ne_none _
  · next h =>
    show t.attention ≠ none
    rw [not_not.mp h]
    exact Option.some_ne_none _

theorem attended_lookedUp_iff (hp : t.status=.pendingEntry) :
    (lookedUp t f (some o)).next.attended ↔
      (o.status.dead ∧ ¬posMatches t f) ∨ ¬(t.attention=none ∨ t.attention=some .orderUnknown) := by
  by_cases hd : o.status.dead ∧ ¬posMatches t f
  · rw [lookedUp,if_pos hd]
    exact iff_of_true (.inr (.inl rfl)) (.inl hd)
  · rw [lookedUp,if_neg hd]
    split
    · next ha => simp [StrategyThread.attended,hp,hd,ha]
    · next ha => simp [StrategyThread.attended,unchanged,hp,hd,ha]

/-- A pass attributes an order to its thread exactly when it sees it as filled: in part, or wholly
and with the quantity of the thread. -/
theorem attributed_reconcilePending_iff (hp : t.status=.pendingEntry)
    (ho : f.entryOrder=.answered (some o)) (hq : Js.positive o.executedQty) (hm : posMatches t f) :
    (reconcilePending t f).next.attributed o ↔ o.status=.partiallyFilled ∨
      (o.status=.filled ∧ Js.number t.qty=Js.number o.executedQty) := by
  obtain ⟨p,hpos,hside⟩ := hm
  by_cases hf : orderFilled o
  · rw [reconcilePending_fill ho hf hpos hside]
    cases hf with
    | inl hf => simp [StrategyThread.attributed,fillEntry,bump,hf]
    | inr hf => simp [StrategyThread.attributed,fillEntry,bump,hf,hq]
  · rw [reconcilePending_foreign ho hf hpos]
    refine iff_of_false (fun h => ?_) fun h => hf (h.elim .inr fun h => .inl h.1)
    have hst : (if t.entryClientOrderId.isSome then foreignPosition t f
        else unchanged t).next.status=.pendingEntry := by
      unfold foreignPosition
      split_ifs <;> exact hp
    exact absurd (hst.symm.trans h.1) (by decide)

end pass

/-- The state that a write of the entry leaves. -/
def entryWrite? {ω : Type} : Event Runtime ω Writer Call Answer → Option Runtime
  | .put .open _ _ s' => some s'
  | _ => none

/-- The states that the writes of the entry leave, in order. -/
def entryWrites {ω : Type} (tr : List (Event Runtime ω Writer Call Answer)) : List Runtime :=
  tr.filterMap entryWrite?

section lookup
variable {ω : Type} {s s' : Runtime} {w w' : ω} {tr : List (Event Runtime ω Writer Call Answer)}

theorem entryWrites_append (t₁ t₂ : List (Event Runtime ω Writer Call Answer)) :
    entryWrites (t₁++t₂)=entryWrites t₁++entryWrites t₂ := List.filterMap_append

theorem entryWrites_cons_open (tr : List (Event Runtime ω Writer Call Answer)) :
    entryWrites (.put .open s w s'::tr)=s'::entryWrites tr := rfl

/-- Only an opening writes as an entry. -/
theorem entryWrites_eq_nil {A : Call → Prop} (h : ∀ e ∈ tr, e.Within (· ≠ .open) A) :
    entryWrites tr=[] := by
  refine List.filterMap_eq_nil_iff.mpr fun e he => ?_
  have hw := h e he
  cases e with
  | call => rfl
  | put l => cases l <;> first | rfl | exact absurd rfl hw

/-- No event of the trace sleeps. -/
def Restless (tr : List (Event Runtime ω Writer Call Answer)) : Prop :=
  ∀ e ∈ tr, e.Within (fun _ => True) fun q => ¬q.sleeps

/-- A trace that sleeps once can be cut only there. -/
theorem cut_of_restless {t₁ t₂ u₁ u₂ : List (Event Runtime ω Writer Call Answer)} {m n : ℕ} {s₁ s₂ s₃ s₄ : Runtime}
    {w₁ w₂ w₃ w₄ : ω} {a b : Unit} (hu₁ : Restless u₁) (hu₂ : Restless u₂)
    (h : t₁++.call (.sleep m) a s₁ w₁ s₂ w₂::t₂=u₁++.call (.sleep n) b s₃ w₃ s₄ w₄::u₂) :
    t₁=u₁ ∧ t₂=u₂ := by
  rcases List.append_eq_append_iff.mp h with ⟨as,hu,ha⟩|⟨as,ht,ha⟩
  · cases as with
    | nil => exact ⟨by rw [hu,List.append_nil],(List.cons.inj ha).2⟩
    | cons x as =>
      obtain ⟨rfl,-⟩ := List.cons.inj ha
      have hmem : .call (.sleep m) a s₁ w₁ s₂ w₂ ∈ u₁ := by simp [hu]
      exact (hu₁ _ hmem trivial).elim
  · cases as with
    | nil => exact ⟨by rw [ht,List.append_nil],(List.cons.inj ha).2.symm⟩
    | cons x as =>
      have hmem : .call (.sleep m) a s₁ w₁ s₂ w₂ ∈ u₂ := by simp [(List.cons.inj ha).2]
      exact (hu₂ _ hmem trivial).elim

variable [Host]

/-- Everything an opening does up to its receipt, and everything after the lookup, is without sleep. -/
theorem settleEntry_restless {t cur : StrategyThread} {intent : DemoIntent} {entry : OrderReceipt}
    {placed : Option PlacedLegs} {outcome : OrderOutcome} {x : Except String Unit}
    (h : Exec (settleEntry t cur intent entry placed outcome) s w tr x s' w') : Restless tr :=
  h.within (settleEntry_within (fun _ hq => hq) (fun _ _ => trivial) _ _ _ _ _ _)

omit [Host] in
theorem entryWrites_updateIntent {intent : DemoIntent} {g : DemoIntent → DemoIntent} {p : RT Unit}
    {x : Except String Unit} (h : Exec (updateIntent intent g >>= fun _ => p) s w tr x s' w') :
    ∃ s₁ t₁, entryWrites tr=entryWrites t₁ ∧ Exec p s₁ w t₁ x s' w' := by
  simp only [updateIntent,Prog.update_bind,Prog.get_bind,Prog.put_bind,Prog.pure_eq,Prog.done_bind,
    Exec.get_iff,Exec.put_iff] at h
  obtain ⟨t₁,rfl,h⟩ := h
  exact ⟨_,t₁,rfl,h⟩

omit [Host] in
/-- A write of the entry and what writes no entry. -/
theorem entryWrites_saveThread {u : StrategyThread} {p : RT Unit} {x : Except String Unit}
    (hp : p.Within (· ≠ .open) fun _ => True)
    (h : Exec (saveThread .open u >>= fun _ => p) s w tr x s' w') :
    entryWrites tr=[s.saveThread u] := by
  simp only [saveThread,Prog.update_bind,Exec.get_iff,Exec.put_iff] at h
  obtain ⟨t₁,rfl,h⟩ := h
  show _::entryWrites t₁=_
  rw [entryWrites_eq_nil (h.within hp)]

/-- The status of a thread once its entry had the outcome. -/
def OrderOutcome.settles (status : ThreadStatus) : OrderOutcome → ThreadStatus
  | .filled => .inPosition
  | .failed => .canceled
  | _ => status

/-- The settlement of an entry stores the thread once. -/
theorem settleEntry_stores {t cur : StrategyThread} {intent : DemoIntent} {entry : OrderReceipt}
    {placed : Option PlacedLegs} {outcome : OrderOutcome} {x : Except String Unit}
    (h : Exec (settleEntry t cur intent entry placed outcome) s w tr x s' w') :
    ∃ (s₁ : Runtime) (u : StrategyThread), entryWrites tr=[s₁.saveThread u] ∧ u.id=cur.id ∧
      u.status=outcome.settles cur.status := by
  have hprot := placeProtection_within (L := (· ≠ .open)) (A := fun _ => True) (fun _ _ => trivial)
    (by rintro l (rfl|rfl) <;> decide)
  simp only [settleEntry,Prog.read_bind,Exec.get_iff] at h
  cases outcome with
  | unknown =>
    obtain ⟨s₁,t₁,ht₁,h⟩ := entryWrites_updateIntent h
    rw [← bind_pure (saveThread _ _)] at h
    exact ⟨s₁,_,ht₁.trans (entryWrites_saveThread (.done _) h),rfl,rfl⟩
  | failed =>
    obtain ⟨s₁,t₁,ht₁,h⟩ := entryWrites_updateIntent h
    rw [← bind_pure (saveThread _ _)] at h
    exact ⟨s₁,_,ht₁.trans (entryWrites_saveThread (.done _) h),rfl,rfl⟩
  | filled =>
    obtain ⟨s₁,t₁,ht₁,h⟩ := entryWrites_updateIntent h
    exact ⟨s₁,_,ht₁.trans (entryWrites_saveThread (.bind (hprot _ _) fun _ => .request trivial) h),rfl,
      rfl⟩
  | submitted =>
    obtain ⟨s₁,t₁,ht₁,h⟩ := entryWrites_updateIntent h
    exact ⟨s₁,_,ht₁.trans (entryWrites_saveThread (.request trivial) h),rfl,rfl⟩

omit [Host] in
theorem restless_append {t₁ t₂ : List (Event Runtime ω Writer Call Answer)} :
    Restless (t₁++t₂) ↔ Restless t₁ ∧ Restless t₂ := List.forall_mem_append

omit [Host] in
theorem not_restless_of_sleep {t₁ t₂ : List (Event Runtime ω Writer Call Answer)} {m : ℕ}
    {s₁ s₂ : Runtime} {w₁ w₂ : ω} {a : Unit} : ¬Restless (t₁++.call (.sleep m) a s₁ w₁ s₂ w₂::t₂) :=
  fun h => h _ (List.mem_append_right _ List.mem_cons_self) trivial

omit [Host] in
/-- A lookup sleeps, asks once, and knows by the answer. -/
theorem confirmOutcome_cases {t : StrategyThread} {cid : String} {outcome : OrderOutcome}
    {y : Except String OrderOutcome} (h : Exec (confirmOutcome t cid outcome) s w tr y s' w') :
    Restless tr ∨ ∃ a s₁ w₁ r,
      tr=[.call (.sleep 2000) a s w s₁ w₁,.call (.getOrder t.symbol cid) r s₁ w₁ s' w'] ∧
      ∀ found, r=.ok (some found) → y=.ok (if found.status=.filled then .filled
        else if found.status.dead then .failed else .submitted) := by
  unfold confirmOutcome at h
  split at h
  · simp only [sleep,Prog.request_bind,Exec.await_iff] at h
    obtain ⟨a,s₁,w₁,t₁,rfl,r,s₂,w₂,t₂,rfl,h⟩ := h
    refine .inr ⟨a,s₁,w₁,r,?_⟩
    split at h
    · obtain ⟨rfl,rfl,rfl,rfl⟩ := Exec.done_iff.mp h
      exact ⟨rfl,fun _ hr => by cases hr; rfl⟩
    · next hr =>
      obtain ⟨rfl,-,rfl,rfl⟩ := Exec.done_iff.mp h
      exact ⟨rfl,fun found hf => absurd hf (hr found)⟩
  · obtain ⟨rfl,-⟩ := Exec.done_iff.mp h
    exact .inl fun _ he => by cases he

omit [Host] in
theorem confirmOutcome_total {t : StrategyThread} {cid e : String} {outcome : OrderOutcome} :
    ¬Exec (confirmOutcome t cid outcome) s w tr (.error e) s' w' := by
  intro h
  unfold confirmOutcome at h
  split at h
  · simp only [sleep,Prog.request_bind,Exec.await_iff] at h
    obtain ⟨a,s₁,w₁,t₁,-,r,s₂,w₂,t₂,-,h⟩ := h
    split at h <;> cases (Exec.done_iff.mp h).2.1
  · cases (Exec.done_iff.mp h).2.1

/-- The trace of an opening: without sleep, or what comes until the receipt of the entry is stored, the
lookup, and the settlement. -/
inductive Opened (id : String) (x : Except String Unit) (s' : Runtime) (w' : ω) :
    List (Event Runtime ω Writer Call Answer) → Prop
  | short {tr : List (Event Runtime ω Writer Call Answer)} (h : Restless tr) : Opened id x s' w' tr
  | settled {s₁ s₂ : Runtime} {w₁ w₂ : ω} {t cur : StrategyThread} {cid : String} {intent : DemoIntent}
      {entry : OrderReceipt} {placed : Option PlacedLegs} {outcome : OrderOutcome}
      {t₁ u t₂ : List (Event Runtime ω Writer Call Answer)} (hr : Restless t₁)
      (hlast : ∃ s : Runtime, (entryWrites t₁).getLast?=some (s.saveThread cur)) (hid : cur.id=id)
      (hu : Exec (confirmOutcome t cid entry.outcome) s₁ w₁ u (.ok outcome) s₂ w₂)
      (hv : Exec (settleEntry t cur intent entry placed outcome) s₂ w₂ t₂ x s' w') :
      Opened id x s' w' (t₁++(u++t₂))

omit [Host] in
theorem Opened.prepend [Host] {id : String} {x : Except String Unit}
    {t₀ : List (Event Runtime ω Writer Call Answer)} (h₀ : Restless t₀) (h : Opened id x s' w' tr) :
    Opened id x s' w' (t₀++tr) := by
  cases h with
  | short h => exact .short (restless_append.mpr ⟨h₀,h⟩)
  | settled hr hlast hid hu hv =>
    obtain ⟨s₀,hlast⟩ := hlast
    rw [← List.append_assoc]
    refine .settled (restless_append.mpr ⟨h₀,hr⟩) ⟨s₀,?_⟩ hid hu hv
    rw [entryWrites_append,List.getLast?_append,hlast,Option.some_or]

theorem submitEntry_opened {t minted : StrategyThread} {cid : String} {intent : DemoIntent}
    {x : Except String Unit} (h : Exec (submitEntry t minted cid intent) s w tr x s' w') :
    Opened t.id x s' w' tr := by
  have hsend := sendEntry_within (L := fun _ => True) (A := fun q => ¬q.sleeps) (fun _ h => h)
    (fun _ _ => trivial) t minted cid
  rcases Exec.bind_iff.mp h with ⟨r,s₁,w₁,t₁,t₂,rfl,h₁,h₂⟩|⟨e,-,h₁⟩
  · obtain ⟨entry,placed⟩ := r
    simp only [storedOr,saveThread,Prog.read_bind,Prog.get_bind,Prog.pure_eq,Prog.done_bind,
      Prog.update_bind,Exec.get_iff,Exec.put_iff] at h₂
    obtain ⟨t₃,rfl,h₃⟩ := h₂
    generalize hc : ((s₁.thread t.id).getD t).submitted s₁.now=c at h₃
    have hid : c.id=t.id := by
      rw [← hc]
      cases hs : s₁.thread t.id with
      | none => rfl
      | some u => exact show u.id=t.id from Runtime.id_of_thread hs
    rw [← hid,Runtime.thread_saveThread_self,Option.getD_some] at h₃
    have hpre : Restless (t₁++[.put .open s₁ w₁ (s₁.saveThread c)]) :=
      restless_append.mpr ⟨h₁.within hsend,by simp [Restless,Event.Within]⟩
    rcases Exec.bind_iff.mp h₃ with ⟨o,s₂,w₂,u,v,rfl,h₄,h₅⟩|⟨e,-,h₄⟩
    · rw [← List.singleton_append,← List.append_assoc]
      refine .settled hpre ⟨s₁,?_⟩ hid h₄ h₅
      rw [entryWrites_append,entryWrites_cons_open]
      exact List.getLast?_concat
    · exact absurd h₄ confirmOutcome_total
  · exact .short (h₁.within hsend)

theorem executeOpen_opened {threadIn : StrategyThread} {intent : DemoIntent} {x : Except String Unit}
    (h : Exec (executeOpen threadIn intent) s w tr x s' w') : Opened threadIn.id x s' w' tr := by
  have hid : ((s.thread threadIn.id).getD threadIn).id=threadIn.id := by
    cases ht : s.thread threadIn.id with
    | none => rfl
    | some u => exact Runtime.id_of_thread ht
  simp only [executeOpen,storedOr,Prog.read_bind,Prog.get_bind,Prog.pure_eq,Prog.done_bind,
    Exec.get_iff] at h
  generalize (s.thread threadIn.id).getD threadIn=t at hid h
  rw [← hid]
  split at h
  · obtain ⟨rfl,-⟩ := Exec.fail_iff.mp h
    exact .short fun _ he => by cases he
  · simp only [updateIntent,saveThread,Prog.update_bind,Prog.get_bind,Prog.put_bind,
      Prog.pure_eq,Prog.done_bind,Exec.get_iff,Exec.put_iff] at h
    obtain ⟨t₁,rfl,t₂,rfl,h⟩ := h
    rw [← List.singleton_append,← List.singleton_append (l := t₂)]
    refine .prepend (by simp [Restless,Event.Within]) (.prepend (by simp [Restless,Event.Within]) ?_)
    rcases Exec.bind_iff.mp h with ⟨why,s₁,w₁,t₃,t₄,rfl,h₁,h₂⟩|⟨e,-,h₁⟩
    · refine .prepend (h₁.within (openingRefusal_within (fun _ h => h) (fun _ _ => trivial) _ _)) ?_
      cases why with
      | some why => exact .short (h₂.within (abortOpen_within (fun _ _ => trivial) _ _ _))
      | none => exact submitEntry_opened h₂
    · exact .short (h₁.within (openingRefusal_within (fun _ h => h) (fun _ _ => trivial) _ _))

/-- The trace sleeps, finds the order by a client id, and goes on. -/
def Finds (tr before : List (Event Runtime ω Writer Call Answer)) (found : OrderStatusView)
    (after : List (Event Runtime ω Writer Call Answer)) : Prop :=
  ∃ (ms : ℕ) (a : Unit) (s₁ s₂ s₃ s₄ : Runtime) (w₁ w₂ w₃ w₄ : ω) (symbol cid : String),
    tr=before++.call (.sleep ms) a s₁ w₁ s₂ w₂::
      .call (.getOrder symbol cid) (.ok (some found)) s₃ w₃ s₄ w₄::after

/-- The lookup of an entry cancels its thread exactly when the order it finds is dead, or the thread
was canceled by the time of the receipt and the order has not filled wholly. -/
theorem canceled_by_lookup_iff {threadIn : StrategyThread} {intent : DemoIntent}
    {x : Except String Unit} (h : Exec (executeOpen threadIn intent) s w tr x s' w')
    {t₁ t₂ : List (Event Runtime ω Writer Call Answer)} {found : OrderStatusView}
    (hf : Finds tr t₁ found t₂) :
    (∃ u ∈ entryWrites t₂, u.hasStatus threadIn.id .canceled) ↔ found.status.dead ∨
      (found.status ≠ .filled ∧ ∃ u ∈ (entryWrites t₁).getLast?, u.hasStatus threadIn.id .canceled) := by
  obtain ⟨ms,a,s₁,s₂,s₃,s₄,w₁,w₂,w₃,w₄,symbol,cid,htr⟩ := hf
  cases executeOpen_opened h with
  | short hr => exact absurd (htr ▸ hr) not_restless_of_sleep
  | @settled s₅ s₆ w₅ w₆ t cur cid' _ entry placed outcome t₃ u t₄ hr hlast hid hu hv =>
    have hr₄ := settleEntry_restless hv
    obtain ⟨s₀,hlast⟩ := hlast
    rcases confirmOutcome_cases hu with hr'|⟨b,s₇,w₇,r,rfl,hy⟩
    · exact absurd (htr ▸ restless_append.mpr ⟨hr,restless_append.mpr ⟨hr',hr₄⟩⟩) not_restless_of_sleep
    · have hr₅ : Restless (.call (.getOrder t.symbol cid') r s₇ w₇ s₆ w₆::t₄) :=
        List.forall_mem_cons.mpr ⟨id,hr₄⟩
      obtain ⟨rfl,hcut⟩ := cut_of_restless hr hr₅ htr.symm
      obtain ⟨hlook,rfl⟩ := List.cons.inj hcut
      cases hlook
      have ho := Except.ok.inj (hy found rfl)
      obtain ⟨s₈,v,hw,hv',hst⟩ := settleEntry_stores hv
      rw [hw,hlast]
      simp only [List.mem_singleton,exists_eq_left,Option.mem_def,Option.some.injEq,
        Runtime.hasStatus_saveThread,hv',hid,if_true,exists_eq_left']
      by_cases hf : found.status=.filled
      · rw [if_pos hf] at ho
        rw [hst,ho]
        exact iff_of_false (show ThreadStatus.inPosition ≠ .canceled by decide) fun h =>
          h.elim (fun hd => hd.not_filled hf) fun h => h.1 hf
      · rw [if_neg hf] at ho
        by_cases hd : found.status.dead
        · rw [if_pos hd] at ho
          rw [hst,ho]
          exact iff_of_true rfl (.inl hd)
        · rw [if_neg hd] at ho
          rw [hst,ho,or_iff_right hd,and_iff_right hf]
          exact Iff.rfl

/-- The trace up to its first lookup that finds an order, the order, and the rest of the trace. -/
def lookupOf : List (Event Runtime ω Writer Call Answer) →
    Option (List (Event Runtime ω Writer Call Answer)×OrderStatusView×
      List (Event Runtime ω Writer Call Answer))
  | .call (.sleep _) _ _ _ _ _::.call (.getOrder _ _) (.ok (some found)) _ _ _ _::tr => some ([],found,tr)
  | e::tr => (lookupOf tr).map fun r => (e::r.1,r.2)
  | [] => none

omit [Host] in
theorem finds_of_lookupOf : ∀ {tr : List (Event Runtime ω Writer Call Answer)}
    {r : List (Event Runtime ω Writer Call Answer)×OrderStatusView×
      List (Event Runtime ω Writer Call Answer)}, lookupOf tr=some r → Finds tr r.1 r.2.1 r.2.2 := by
  intro tr
  induction tr using lookupOf.induct with
  | case1 =>
    rintro r ⟨⟩
    exact ⟨_,_,_,_,_,_,_,_,_,_,_,_,rfl⟩
  | case2 e tr hn ih =>
    intro r h
    rw [lookupOf.eq_2 e tr hn] at h
    obtain ⟨r',hr',rfl⟩ := Option.map_eq_some_iff.mp h
    obtain ⟨ms,a,s₁,s₂,s₃,s₄,w₁,w₂,w₃,w₄,symbol,cid,rfl⟩ := ih hr'
    exact ⟨_,_,_,_,_,_,_,_,_,_,_,_,rfl⟩
  | case3 => rintro r ⟨⟩

end lookup

section scripts

/-- The answers to an opening whose receipt is lost, and whose order is found as given. -/
def lostReceipt (o : OrderStatusView) : (q : Call) → Answer q
  | .openingData _ _ => .ok ("100",⟨"0.001","0.1","0.001","5"⟩)
  | q => { replies with account := .ok ⟨.demo,"1000",[],[]⟩, order := .ok (some o) : Replies }.answer q

def lostOpening (o : OrderStatusView) :
    List (Event Runtime Unit Writer Call Answer) × Except String Unit × Runtime :=
  letI := oneDigest
  Exec.play (fun _ => lostReceipt o) (fun _ => id) () (executeOpen chatThread chatIntent) 0
    (stateAfter chatProposalMoves)

theorem lostOpening_exec (o : OrderStatusView) : @Exec _ _ _ _ _ _ _ (@executeOpen oneDigest chatThread chatIntent)
    (stateAfter chatProposalMoves) () (lostOpening o).1 (lostOpening o).2.1 (lostOpening o).2.2 () :=
  Exec.of_play _ _ _ _ _ _

/-- An order canceled after it filled in part, and one that filled in part and is still open. -/
def cutShort : OrderStatusView := ⟨.canceled,some "100","0.5"⟩

def partFilled : OrderStatusView := ⟨.partiallyFilled,some "100","0.5"⟩

def wholeFill : OrderStatusView := ⟨.filled,some "100","1"⟩

/-- The proposed thread, sent. -/
def sentThread : StrategyThread := chatThread.submitting "tgd-e1" 2 100000000

/-- The long position that the part made. -/
def partFacts (o : OrderStatusView) : ThreadFacts :=
  ⟨100050000,some ⟨"BTCUSDT",.long,"0.5","100","100",5⟩,.answered (some o),[]⟩

end scripts

/-- A waiting thread whose entry order has ended and whose grace is over is left without a flag
exactly when the order filled, no position of the thread's side is there, and no other flag than that
of an unknown order was up. -/
theorem attended_reconcileThread_iff {t : StrategyThread} {f : ThreadFacts} {o : OrderStatusView}
    (hp : t.status=.pendingEntry) (hc : t.entryClientOrderId.isSome) (ho : f.entryOrder=.answered (some o))
    (ht : o.status.terminal) (hg : ¬withinSubmitGrace t f.now) :
    (reconcileThread t f).next.attended ↔ ¬(o.status=.filled ∧ ¬posMatches t f ∧
      (t.attention=none ∨ t.attention=some .orderUnknown)) := by
  simp only [reconcileThread,hp]
  cases ht with
  | inl hfill =>
    by_cases hm : posMatches t f
    · obtain ⟨p,hpos,hside⟩ := hm
      rw [reconcilePending_fill ho (.inl hfill) hpos hside]
      exact iff_of_true (.inl rfl) fun h => h.2.1 ⟨p,hpos,hside⟩
    · rw [reconcilePending_absent hc ho (.inl hfill) hm,attended_lookedUp_iff hp]
      rw [or_iff_right fun h => h.1.not_filled hfill]
      simp [hfill,hm]
  | inr hdead =>
    refine iff_of_true ?_ fun h => hdead.not_filled h.1
    cases hpos : f.position with
    | none =>
      rw [reconcilePending_bare hc ho hpos,attended_lookedUp_iff hp]
      exact .inl ⟨hdead,by simp [posMatches,hpos]⟩
    | some p =>
      rw [reconcilePending_foreign ho (orderFilled_of_dead hdead) hpos,if_pos hc]
      exact attended_foreignPosition hg

/-- An order that filled while the account shows no position leaves its thread waiting without a
flag. -/
theorem filled_entry_unattended : ¬∀ (t : StrategyThread) (f : ThreadFacts) (o : OrderStatusView),
    t.status=.pendingEntry → t.entryClientOrderId.isSome → f.entryOrder=.answered (some o) →
    o.status.terminal → ¬withinSubmitGrace t f.now → (reconcileThread t f).next.attended := by
  intro hall
  have := hall sentThread { partFacts wholeFill with position := none } wholeFill (by decide +kernel)
    (by decide +kernel) rfl (by decide) (by decide +kernel)
  exact absurd this (by decide +kernel)

theorem canceled_entry_attended : (reconcileThread sentThread (partFacts cutShort)).next.attended :=
  (attended_reconcileThread_iff (by decide +kernel) (by decide +kernel) rfl (by decide)
    (by decide +kernel)).mpr fun h => absurd h.1 (by decide)

/-- A pass attributes the fill of a waiting thread with a position of its side exactly when it sees the
order as filled: in part, or wholly and with the quantity of the thread.  The lookup of an unknown
receipt leaves the thread uncanceled exactly when the order it finds is not dead, and filled wholly or
the thread was not canceled by the time of the receipt. -/
theorem own_fill_attributed_iff (t : StrategyThread) :
    (∀ (f : ThreadFacts) (o : OrderStatusView), t.status=.pendingEntry →
      f.entryOrder=.answered (some o) → Js.positive o.executedQty → posMatches t f →
      ((reconcileThread t f).next.attributed o ↔ o.status=.partiallyFilled ∨
        (o.status=.filled ∧ Js.number t.qty=Js.number o.executedQty))) ∧
    ∀ (_ : Host) (ω : Type) (intent : DemoIntent) (s s' : Runtime) (w w' : ω)
      (tr : List (Event Runtime ω Writer Call Answer)) (x : Except String Unit),
      Exec (executeOpen t intent) s w tr x s' w' →
      ∀ t₁ found t₂, Finds tr t₁ found t₂ → Js.positive found.executedQty →
        ((¬∃ u ∈ entryWrites t₂, u.hasStatus t.id .canceled) ↔ ¬found.status.dead ∧
          (found.status=.filled ∨
            ¬∃ u ∈ (entryWrites t₁).getLast?, u.hasStatus t.id .canceled)) := by
  refine ⟨fun f o hp ho hq hm => ?_,?_⟩
  · rw [reconcileThread,hp]
    exact attributed_reconcilePending_iff hp ho hq hm
  · intro _ ω intent s s' w w' tr x h t₁ found t₂ hf _
    rw [canceled_by_lookup_iff h hf]
    rw [not_or,not_and_or,ne_eq,not_not]

/-- A part that filled before its order was canceled is taken for another's position, and the lookup
of such an order cancels the thread. -/
theorem cut_short_fill_lost :
    (¬∀ (t : StrategyThread) (f : ThreadFacts) (o : OrderStatusView), t.status=.pendingEntry →
      f.entryOrder=.answered (some o) → Js.positive o.executedQty → posMatches t f →
      (reconcileThread t f).next.attributed o) ∧
    ¬∀ (_ : Host) (ω : Type) (threadIn : StrategyThread) (intent : DemoIntent) (s s' : Runtime) (w w' : ω)
      (tr : List (Event Runtime ω Writer Call Answer)) (x : Except String Unit),
      Exec (executeOpen threadIn intent) s w tr x s' w' →
      ∀ t₁ found t₂, Finds tr t₁ found t₂ → Js.positive found.executedQty →
        ¬∃ u ∈ entryWrites t₂, u.hasStatus threadIn.id .canceled := by
  constructor
  · intro hall
    have := hall sentThread (partFacts cutShort) cutShort (by decide +kernel) rfl (by decide +kernel)
      (by decide +kernel)
    exact absurd this (by decide +kernel)
  · intro hall
    have hlook : ∃ r ∈ lookupOf (lostOpening cutShort).1, Js.positive r.2.1.executedQty ∧
        ∃ u ∈ entryWrites r.2.2, u.hasStatus chatThread.id .canceled := by decide +kernel
    obtain ⟨r,hr,hq,hc⟩ := hlook
    exact hall oneDigest Unit _ _ _ _ _ _ _ _ (lostOpening_exec cutShort) _ _ _ (finds_of_lookupOf hr) hq hc

/-- A part that filled while its order is open is the thread's, in a pass and after a lost receipt. -/
theorem part_fill_attributed :
    (reconcileThread sentThread (partFacts partFilled)).next.attributed partFilled ∧
      ∃ r ∈ lookupOf (lostOpening partFilled).1,
        ¬∃ u ∈ entryWrites r.2.2, u.hasStatus chatThread.id .canceled := by
  refine ⟨((own_fill_attributed_iff _).1 _ _ (by decide +kernel) rfl (by decide +kernel)
    (by decide +kernel)).mpr (.inl rfl),?_⟩
  have hlook : ∃ r ∈ lookupOf (lostOpening partFilled).1, Js.positive r.2.1.executedQty ∧
      ¬r.2.1.status.dead ∧ (r.2.1.status=.filled ∨
        ¬∃ u ∈ (entryWrites r.1).getLast?, u.hasStatus chatThread.id .canceled) := by decide +kernel
  obtain ⟨r,hr,hq,hc⟩ := hlook
  exact ⟨r,hr,((own_fill_attributed_iff _).2 oneDigest Unit _ _ _ _ _ _ _ (lostOpening_exec partFilled)
    _ _ _ (finds_of_lookupOf hr) hq).mpr hc⟩

end TradeGate
