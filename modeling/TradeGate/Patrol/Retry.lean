import TradeGate.Coop.Contract
import TradeGate.Model.Halt

/-! Runs of account polls.  Between two polls, and at every await of a pass, the other operations
of the runtime may change the state in any way. -/
namespace TradeGate
open Coop

variable [Host] {ω : Type}

/-- One thread's turn in a pass: the snapshot it is judged by, and its part of the execution. -/
structure PassVisit (ω : Type) where
  acct : AccountView
  paperEvents : List PaperEvent
  visit : Visit StrategyThread Runtime ω Writer Call Answer

namespace PassVisit

variable (v : PassVisit ω)

/-- The thread as the pass listed it. -/
def thread : StrategyThread := v.visit.item

/-- The state when the turn begins. -/
def state : Runtime := v.visit.pre

/-- The row of the snapshot the thread is judged by. -/
def position : Option PositionView := v.acct.positions.find? fun p => p.symbol=v.thread.symbol

/-- The open orders of the thread's symbol. -/
def openOrders : List OpenOrderView := v.acct.openOrders.filter fun o => o.symbol=v.thread.symbol

/-- The visit as an execution of the turn. -/
def Runs : Prop := ∃ x s' w',
  Exec (reconcileOne v.acct v.paperEvents v.thread) v.state v.visit.world v.visit.trace x s' w'

/-- The requests sent during the turn. -/
def requests : List Call := Coop.requests v.visit.trace

end PassVisit

/-- One poll: the account read, and the turns of the open threads.  The snapshot is recorded
before the first turn, and the simulator's events are taken over. -/
inductive Poll : Runtime → ω → List (PassVisit ω) → Except String Unit → Runtime → ω → Prop
  | refused {s s₁ : Runtime} {w w₁ : ω} {e : String} : Poll s w [] (.error e) s₁ w₁
  | pass {s s₁ s₂ s' : Runtime} {w w₁ w' : ω} {x : Except String Unit} (acct : AccountView)
      {vs : List (Visit StrategyThread Runtime ω Writer Call Answer)}
      (hs : s₂=(s₁.setAccount acct).trackDailyEquity acct)
      (h : Visits (reconcileOne acct s₂.pendingPaperEvents) s₂.takePaperEvents.openThreads
        s₂.takePaperEvents w₁ vs x s' w') :
      Poll s w (vs.map (PassVisit.mk acct s₂.pendingPaperEvents)) x s' w'

/-- Every execution of the poll is an account read followed by its turns. -/
theorem Poll.of_exec {s s' : Runtime} {w w' : ω} {tr : List (Event Runtime ω Writer Call Answer)}
    {x : Except String Unit} (h : Exec pollAccountInner s w tr x s' w') :
    ∃ pvs, Poll s w pvs x s' w' ∧ requests tr=.account::pvs.flatMap PassVisit.requests := by
  obtain ⟨r,s₁,w₁,tr₁,rfl,h₁⟩ := Exec.await_iff.mp h
  cases r with
  | error e =>
    obtain ⟨rfl,rfl,rfl,rfl⟩ := Exec.fail_iff.mp h₁
    exact ⟨[],.refused,rfl⟩
  | ok acct =>
    obtain ⟨tr₂,rfl,h₂⟩ := Exec.put_iff.mp (Exec.get_iff.mp h₁)
    obtain ⟨tr₃,rfl,h₃⟩ := Exec.put_iff.mp (Exec.get_iff.mp (Exec.get_iff.mp h₂))
    obtain ⟨vs,hv,rfl⟩ := Visits.of_exec (Exec.get_iff.mp h₃)
    refine ⟨_,.pass acct rfl hv,?_⟩
    simp only [requests_call,requests_put,requests_flatMap,List.flatMap_map,PassVisit.requests]

/-- Every visit of a poll is an execution of the pass body from the state it begins in. -/
theorem Poll.runs {s s' : Runtime} {w w' : ω} {pvs : List (PassVisit ω)} {x : Except String Unit}
    (h : Poll s w pvs x s' w') {v : PassVisit ω} (hv : v ∈ pvs) : v.Runs := by
  cases h with
  | refused => cases hv
  | pass acct hs h =>
    obtain ⟨u,hu,rfl⟩ := List.mem_map.mp hv
    exact (h.exec_of_mem hu).2

/-- A poll that ends normally has a turn for every thread it listed, in order. -/
theorem Poll.threads {s s' : Runtime} {w w' : ω} {pvs : List (PassVisit ω)}
    (h : Poll s w pvs (.ok ()) s' w') : ∃ s₁ : Runtime, pvs.map PassVisit.thread=s₁.openThreads := by
  cases h with
  | pass acct hs h => exact ⟨_,by rw [← h.items,List.map_map]; rfl⟩

/-- Any number of polls, each from whatever state the other operations have left. -/
inductive PollRun : List (PassVisit ω) → Prop
  | nil : PollRun []
  | poll {pvs rest : List (PassVisit ω)} {s s' : Runtime} {w w' : ω} {x : Except String Unit}
      (h : Poll s w pvs x s' w') (hs : PollRun rest) : PollRun (pvs++rest)

theorem PollRun.runs {pvs : List (PassVisit ω)} (h : PollRun pvs) {v : PassVisit ω}
    (hv : v ∈ pvs) : v.Runs := by
  induction h with
  | nil => cases hv
  | poll h _ ih => exact (List.mem_append.mp hv).elim h.runs ih

/-- A poll of a given snapshot by a script for each thread. -/
def Poll.play (s : Runtime) (acct : AccountView) (o : StrategyThread → ℕ → (q : Call) → Answer q)
    (d : StrategyThread → ℕ → Runtime → Runtime) :
    List (PassVisit Unit) × Except String Unit × Runtime :=
  let s₂ := (s.setAccount acct).trackDailyEquity acct
  let r := Visits.play (reconcileOne acct s₂.pendingPaperEvents) o d () s₂.takePaperEvents.openThreads
    s₂.takePaperEvents
  (r.1.map (PassVisit.mk acct s₂.pendingPaperEvents),r.2)

theorem Poll.of_play (s : Runtime) (acct : AccountView)
    (o : StrategyThread → ℕ → (q : Call) → Answer q) (d : StrategyThread → ℕ → Runtime → Runtime) :
    Poll s () (Poll.play s acct o d).1 (Poll.play s acct o d).2.1 (Poll.play s acct o d).2.2 () :=
  @Poll.pass _ Unit s s _ _ () () () _ acct _ rfl (Visits.of_play o d _ _)

end TradeGate

/-! When a pass acts on a missing stop.  `reconcileThread` reports a change only when the flag of
the thread changes, and the stop is placed only after a change, so a thread that already carries
the flag, or one the runtime claims to own, gets no second attempt. -/
namespace TradeGate
open Coop

/-- The flags with which a missing stop is not acted upon. -/
def Attention.silent (a : Attention) : Prop := a=.protectionMissing ∨ a.runtimeOwned

instance (a : Attention) : Decidable a.silent := inferInstanceAs (Decidable (_ ∨ _))

section
variable {t : StrategyThread} {f : ThreadFacts}

theorem reconcileInPosition_gone (h : ¬posMatches t f) :
    (reconcileInPosition t f).changed=true ∧ (reconcileInPosition t f).next.status=.closed ∧
      (reconcileInPosition t f).next.attention=none ∧
      (reconcileInPosition t f).events.map Prod.fst=[.closed] ∧
      (reconcileInPosition t f).next.id=t.id ∧ (reconcileInPosition t f).next.symbol=t.symbol := by
  rw [reconcileInPosition,if_pos h]
  exact ⟨rfl,rfl,rfl,rfl,rfl,rfl⟩

theorem reconcileInPosition_silent (hp : posMatches t f) (hs : t.stopPrice.isSome)
    (ho : ¬hasStop t f.openOrders) (ha : ∃ a ∈ t.attention, a.silent) :
    reconcileInPosition t f=unchanged t := by
  rw [reconcileInPosition,if_neg (not_not.mpr hp)]
  by_cases hr : ∃ a ∈ t.attention, a.runtimeOwned
  · rw [if_pos hr]
  · obtain ⟨a,ha,rfl|h⟩ := ha
    · rw [if_neg hr,if_pos ⟨hs,ho⟩,if_pos (Option.mem_def.mp ha)]
    · exact absurd ⟨a,ha,h⟩ hr

theorem reconcileInPosition_missing (hp : posMatches t f) (hs : t.stopPrice.isSome)
    (ho : ¬hasStop t f.openOrders) (ha : ¬∃ a ∈ t.attention, a.silent) :
    reconcileInPosition t f=⟨t.flag (some .protectionMissing) f.now,true,
      [(.attention,"止损单不在交易所上,需要补挂")]⟩ := by
  have hr : ¬∃ a ∈ t.attention, a.runtimeOwned := fun ⟨a,h,h'⟩ => ha ⟨a,h,.inr h'⟩
  have hm : t.attention ≠ some .protectionMissing := fun h => ha ⟨_,h,.inl rfl⟩
  rw [reconcileInPosition,if_neg (not_not.mpr hp),if_neg hr,if_pos ⟨hs,ho⟩,if_neg hm]

end

/-- The stop price `placeProtection` acts on: a given, non-empty text. -/
def StrategyThread.stopText (t : StrategyThread) : Option String :=
  t.stopPrice.filter fun p => p ≠ ""

section due
variable [Host] {ω : Type} {s s' : Runtime} {w w' : ω}
  {tr : List (Event Runtime ω Writer Call Answer)} {x : Except String Unit}

/-- An attempt that is due sends the stop first. -/
theorem placeProtection_sends {t : StrategyThread} {p : String} (ht : t.status=.inPosition)
    (hs : s.halted=false) (hlast : 60000 ≤ s.now-s.protectionRetryAt t.id)
    (hstored : s.thread t.id=some t) (hp : t.stopText=some p)
    (h : Exec (placeProtection t none) s w tr x s' w') :
    .placeStop t.symbol t.side p (nextLegCid t .s).1 ∈ requests tr := by
  have hlast' : ¬s.now-s.protectionRetryAt t.id<60000 := by omega
  rw [StrategyThread.stopText] at hp
  simp only [placeProtection,Prog.read_bind,Exec.get_iff,ht,hs,ne_eq,not_true_eq_false,
    Bool.false_eq_true,or_self,if_false,hlast',Prog.update_bind,Exec.put_iff,storedOr,
    Prog.pure_eq,Prog.get_bind,Prog.done_bind,Runtime.thread_noteProtectionTry,hstored,
    Option.getD_some,protectThread,hp,placeStopLeg,stopLeg,saveThread,stopReceipt,
    Prog.request_bind,Exec.await_iff] at h
  obtain ⟨t₁,rfl,t₂,rfl,r,s₁,w₁,t₃,rfl,-⟩ := h
  simp [hstored]

theorem followUp_attention {next : StrategyThread} (ht : next.status=.inPosition)
    (ha : next.attention=some .protectionMissing) :
    followUp next [.attention] .unqueried=placeProtection next none := by
  simp [followUp,Prog.onlyIf,ht,ha]

theorem followUp_closed {next : StrategyThread} (ht : next.status=.closed)
    (ha : next.attention=none) :
    followUp next [.closed] .unqueried=.await (.cancelAll next.symbol) fun _ =>
      .get fun s => .put .intent (s.resolveOpenIntents next .filled) (.done ()) := by
  simp [followUp,Prog.onlyIf,ht,ha]

end due

/-- A request that protects or flattens the thread's position. -/
def Call.actsFor (t : StrategyThread) : Call → Prop
  | .placeStop symbol position _ _ => symbol=t.symbol ∧ position=t.side
  | .closePosition symbol _ => symbol=t.symbol
  | _ => False

instance (t : StrategyThread) : DecidablePred (Call.actsFor t)
  | .placeStop symbol position _ _ => inferInstanceAs
      (Decidable (symbol=t.symbol ∧ position=t.side))
  | .closePosition symbol _ => inferInstanceAs (Decidable (symbol=t.symbol))
  | .account | .getOrder _ _ | .algoOrderExists _ _ | .listAlgoOrders _ | .cancelAlgoOrder _ _
  | .symbolRules _ | .markPrice _ | .placeEntry _ | .openWithProtection _ | .placeTakeProfit _ _ _ _
  | .reducePosition _ _ _ | .cancelAll _ | .cancelOrder _ _ | .setLeverage _ _ | .setMarginType _ _
  | .openingData _ _ | .marketView _ _ | .sleep _ | .pollAccount | .startBackend _
  | .stopBackend _ => inferInstanceAs (Decidable False)

/-- The contract of a turn that leaves the thread as it is: no request acts for it, and no write
closes it. -/
def idleContract (ω : Type) (t : StrategyThread) : Contract Runtime ω Writer Call Answer where
  may _ _ q := ¬q.actsFor t
  write s _ _ s' := s'.hasStatus t.id .closed → s.hasStatus t.id .closed
  back _ _ _ _ _ _ := True

section idle
variable {ω : Type} {t : StrategyThread} {s : Runtime} {w : ω}

theorem saveThread_idle {u : StrategyThread} {l : Writer}
    (h : u.id=t.id → u.status=.closed → s.hasStatus t.id .closed) :
    (idleContract ω t).Meets (saveThread l u) (fun _ _ _ => True) s w := by
  refine ⟨fun hc => ?_,trivial⟩
  rw [Runtime.hasStatus_saveThread] at hc
  split at hc
  · next hu => exact h hu hc
  · exact hc

theorem settleRemainder_idle (u : StrategyThread) (rem : Option OrderStatusView) :
    (idleContract ω t).Meets (settleRemainder u rem) (fun _ _ _ => True) s w := by
  simp only [settleRemainder,Prog.read_bind,Contract.Meets.get]
  split
  · trivial
  · next cur hcur =>
    refine saveThread_idle fun hid hst => ⟨cur,?_,hst⟩
    have hc := (Option.filter_eq_some_iff.mp hcur).1
    have hid' : cur.id=t.id := hid
    rw [← hid',Runtime.id_of_thread hc]
    exact hc

theorem finishRemainder_idle (cid : String) :
    (idleContract ω t).Meets (finishRemainder t cid) (fun _ _ _ => True) s w := by
  simp only [finishRemainder,Prog.request_bind,Contract.Meets.await]
  refine ⟨id,fun r s w _ => ?_⟩
  split
  · split
    · exact settleRemainder_idle t _
    · refine ⟨id,fun c s w _ => ?_⟩
      dsimp only
      split
      · exact settleRemainder_idle t _
      · trivial
  · exact settleRemainder_idle t _

theorem saveProtected_idle {u : StrategyThread} {ids : List String} (hu : u.status ≠ .closed) :
    (idleContract ω t).Meets (saveProtected u ids) (fun _ _ _ => True) s w := by
  simp only [saveProtected,storedOr,Prog.read_bind,Contract.Meets.get,Prog.get_bind,Prog.pure_eq,
    Prog.done_bind]
  refine saveThread_idle fun hid hst => ?_
  cases hc : s.thread u.id with
  | none => simp [hc,hu] at hst
  | some cur =>
    simp only [hc,Option.getD_some,flag_id,flag_status] at hid hst
    exact ⟨cur,by rw [← hid,Runtime.id_of_thread hc]; exact hc,hst⟩

variable [Host]

theorem placeTakeProfitLeg_idle {u : StrategyThread} {ids : List String} (hu : u.status ≠ .closed) :
    (idleContract ω t).Meets (placeTakeProfitLeg u ids none) (fun _ _ _ => True) s w := by
  unfold placeTakeProfitLeg
  split
  · exact saveProtected_idle hu
  · split
    · exact saveProtected_idle hu
    · refine Contract.Meets.bind (saveThread_idle fun _ h => absurd h hu) fun _ s w _ => ?_
      exact ⟨id,fun r s w _ => saveProtected_idle hu⟩

/-- An attempt that is not due, or has no price to place a stop at. -/
theorem placeProtection_idle {u : StrategyThread} (hu : u.status ≠ .closed)
    (hstored : s.thread u.id=some u)
    (h : s.now-s.protectionRetryAt u.id<60000 ∨ u.stopText=none) :
    (idleContract ω t).Meets (placeProtection u none) (fun _ _ _ => True) s w := by
  simp only [placeProtection,Prog.read_bind,Contract.Meets.get]
  split
  · trivial
  · split
    · trivial
    · next hlast =>
      have hnone : u.stopPrice.filter (fun p => p ≠ "")=none := h.resolve_left hlast
      simp only [Prog.update_bind,Contract.Meets.get,Contract.Meets.put,storedOr,Prog.read_bind,
        Prog.get_bind,Prog.pure_eq,Prog.done_bind,Runtime.thread_noteProtectionTry,hstored,
        Option.getD_some,protectThread,hnone]
      exact ⟨id,placeTakeProfitLeg_idle hu⟩

end idle

variable [Host] {ω : Type}

namespace PassVisit

/-- The turn of a thread in position that wants a stop, whose position the snapshot shows and for
whose stop it has no order, outside a halt. -/
structure MissesStop (v : PassVisit ω) : Prop where
  running : v.state.halted=false
  inPosition : v.thread.status=.inPosition
  wantsStop : v.thread.stopPrice.isSome
  held : ∃ p ∈ v.acct.positions, p.symbol=v.thread.symbol ∧ p.side=v.thread.side
  bare : ¬hasStop v.thread v.openOrders

/-- The turn sends a stop or a close for the thread. -/
def Acts (v : PassVisit ω) : Prop := ∃ q ∈ v.requests, q.actsFor v.thread

instance (v : PassVisit ω) : Decidable v.Acts :=
  inferInstanceAs (Decidable (∃ q ∈ v.requests, q.actsFor v.thread))

/-- The turn stores the thread as closed. -/
def Closes (v : PassVisit ω) : Prop := ∃ l s w s', .put l s w s' ∈ v.visit.trace ∧
  ¬s.hasStatus v.thread.id .closed ∧ s'.hasStatus v.thread.id .closed

/-- The last attempt to protect the thread is at least a minute old. -/
def Due (v : PassVisit ω) : Prop :=
  60000 ≤ v.state.now-v.state.protectionRetryAt v.thread.id

instance (v : PassVisit ω) : Decidable v.Due := inferInstanceAs (Decidable (_ ≤ _))

/-- The row the thread is judged by is its own. -/
def OwnRow (v : PassVisit ω) : Prop := ∃ p ∈ v.position, p.side=v.thread.side

instance (v : PassVisit ω) : Decidable v.OwnRow :=
  inferInstanceAs (Decidable (∃ p ∈ v.position, p.side=v.thread.side))

/-- The thread carries a flag under which its missing stop is left alone. -/
def Silent (v : PassVisit ω) : Prop := ∃ a ∈ v.thread.attention, a.silent

instance (v : PassVisit ω) : Decidable v.Silent :=
  inferInstanceAs (Decidable (∃ a ∈ v.thread.attention, a.silent))

variable {v : PassVisit ω}

/-- The facts the thread is judged by when its entry order is not queried. -/
def facts (v : PassVisit ω) : ThreadFacts := ⟨v.state.now,v.position,.unqueried,v.openOrders⟩

theorem reconcileOne_inPosition {acct : AccountView} {evs : List PaperEvent} {t : StrategyThread}
    {s s' : Runtime} {w w' : ω} {tr : List (Event Runtime ω Writer Call Answer)}
    {x : Except String Unit} (ht : t.status=.inPosition) (hs : s.halted=false) :
    Exec (reconcileOne acct evs t) s w tr x s' w' ↔
      (∃ cid, t.attention=some .entryRemainder ∧ t.entryClientOrderId=some cid ∧
        Exec (finishRemainder t cid) s w tr x s' w') ∨
      ((t.attention=some .entryRemainder → t.entryClientOrderId=none) ∧
        Exec (judge t (acct.positions.find? fun p => p.symbol=t.symbol)
          (acct.openOrders.filter fun o => o.symbol=t.symbol) evs .unqueried) s w tr x s' w') := by
  simp only [reconcileOne,Prog.read_bind,Exec.get_iff,hs,Bool.false_eq_true,if_false,ht]
  cases hc : t.entryClientOrderId with
  | none => simp
  | some cid => by_cases ha : t.attention=some .entryRemainder <;> simp [ha]

theorem judge_iff {tr : List (Event Runtime ω Writer Call Answer)} {x : Except String Unit}
    {s' : Runtime} {w' : ω} (ht : v.thread.status=.inPosition) :
    Exec (judge v.thread v.position v.openOrders v.paperEvents .unqueried) v.state v.visit.world
        tr x s' w' ↔
      Exec (Prog.onlyIf ((reconcileInPosition v.thread v.facts).changed=true) do
        let next := withPaperClose (reconcileInPosition v.thread v.facts).next
          (v.paperEvents.find? fun e => e.symbol=v.thread.symbol ∧ (e.kind=.slHit ∨ e.kind=.tpHit))
        saveThread .reconcile next
        followUp next ((reconcileInPosition v.thread v.facts).events.map Prod.fst) .unqueried)
        v.state v.visit.world tr x s' w' := by
  simp only [judge,Prog.read_bind,Exec.get_iff,reconcileThread,ht,facts]
  rfl

/-- A missing stop that is not silenced is acted upon in the same turn. -/
theorem acts_of_due (hm : v.MissesStop) (hr : v.Runs) (ho : v.OwnRow) (hs : ¬v.Silent)
    (hd : v.Due) {p : String} (hp : v.thread.stopText=some p) : v.Acts := by
  obtain ⟨x,s',w',h⟩ := hr
  rcases (reconcileOne_inPosition hm.inPosition hm.running).mp h with ⟨cid,ha,-,-⟩|⟨-,h⟩
  · exact absurd ⟨_,ha,.inr (.inr (.inl rfl))⟩ hs
  · have hrec := reconcileInPosition_missing (f := v.facts) ho hm.wantsStop hm.bare hs
    have hst : (v.thread.flag (some .protectionMissing) v.state.now).status=.inPosition :=
      hm.inPosition
    rw [show v.acct.positions.find? (fun p => p.symbol=v.thread.symbol)=v.position from rfl,
      show v.acct.openOrders.filter (fun o => o.symbol=v.thread.symbol)=v.openOrders from rfl,
      judge_iff hm.inPosition,hrec] at h
    dsimp only [facts] at h
    rw [Prog.onlyIf,if_pos rfl,withPaperClose_of_ne (by rw [hst]; decide)] at h
    simp only [saveThread,Prog.update_bind,Exec.get_iff,Exec.put_iff,List.map_cons,List.map_nil,
      followUp_attention hst rfl] at h
    obtain ⟨tr,htr,h⟩ := h
    have hq := placeProtection_sends (s := v.state.saveThread _) hst hm.running hd
      (Runtime.thread_saveThread_self _ _) hp h
    have hmem : .placeStop v.thread.symbol v.thread.side p
        (nextLegCid (v.thread.flag (some .protectionMissing) v.state.now) .s).1 ∈ v.requests := by
      rw [PassVisit.requests,htr]
      exact hq
    exact ⟨_,hmem,rfl,rfl⟩

omit [Host] in
/-- A turn whose program keeps the idle contract neither acts for its thread nor closes it. -/
theorem idle_of_meets {p : RT Unit} {x : Except String Unit} {s' : Runtime} {w' : ω}
    (hp : (idleContract ω v.thread).Meets p (fun _ _ _ => True) v.state v.visit.world)
    (h : Exec p v.state v.visit.world v.visit.trace x s' w') : ¬v.Acts ∧ ¬v.Closes := by
  have ho := (hp.exec h fun e _ => by cases e <;> trivial).1
  constructor
  · rintro ⟨q,hq,ha⟩
    obtain ⟨e,he,heq⟩ := List.mem_filterMap.mp hq
    cases e with
    | put => cases heq
    | call q' r s w s' w' =>
      cases heq
      exact ho _ he ha
  · rintro ⟨l,s,w,s',he,hn,hc⟩
    exact hn (ho _ he hc)

/-- A missing stop that is silenced, throttled or without a price is left alone. -/
theorem idle_of_row (hm : v.MissesStop) (hr : v.Runs) (ho : v.OwnRow)
    (hi : v.Silent ∨ ¬v.Due ∨ v.thread.stopText=none) : ¬v.Acts ∧ ¬v.Closes := by
  obtain ⟨x,s',w',h⟩ := hr
  rcases (reconcileOne_inPosition hm.inPosition hm.running).mp h with ⟨cid,-,-,h⟩|⟨-,h⟩
  · exact idle_of_meets (finishRemainder_idle cid) h
  · have h := (judge_iff hm.inPosition).mp h
    by_cases hs : v.Silent
    · rw [reconcileInPosition_silent (f := v.facts) ho hm.wantsStop hm.bare hs] at h
      exact idle_of_meets (p := .done ()) trivial h
    · have hst : (v.thread.flag (some .protectionMissing) v.state.now).status=.inPosition :=
        hm.inPosition
      have hne : (v.thread.flag (some .protectionMissing) v.state.now).status ≠ .closed := by
        rw [hst]; decide
      rw [reconcileInPosition_missing (f := v.facts) ho hm.wantsStop hm.bare hs] at h
      refine idle_of_meets ?_ h
      dsimp only [facts]
      rw [Prog.onlyIf,if_pos rfl,withPaperClose_of_ne hne]
      refine Contract.Meets.bind_iff.mpr ⟨?_,?_⟩
      · intro hc
        rw [Runtime.hasStatus_saveThread] at hc
        split at hc
        · exact absurd hc hne
        · exact hc
      · rw [List.map_cons,List.map_nil]
        change (idleContract ω v.thread).Meets (followUp _ [.attention] .unqueried) _ _ _
        rw [followUp_attention hst rfl]
        refine placeProtection_idle hne (Runtime.thread_saveThread_self _ _) ?_
        rcases hi with hi|hi|hi
        · exact absurd hi hs
        · exact .inl (not_le.mp hi)
        · exact .inr hi

/-- While the remainder of a partly filled entry is cancelled nothing else is done. -/
theorem idle_of_remainder (hm : v.MissesStop) (hr : v.Runs) {cid : String}
    (ha : v.thread.attention=some .entryRemainder) (hc : v.thread.entryClientOrderId=some cid) :
    ¬v.Acts ∧ ¬v.Closes := by
  obtain ⟨x,s',w',h⟩ := hr
  rcases (reconcileOne_inPosition hm.inPosition hm.running).mp h with ⟨cid',-,-,h⟩|⟨hn,-⟩
  · exact idle_of_meets (finishRemainder_idle cid') h
  · rw [hn ha] at hc
    cases hc

/-- A thread whose first row is not its own is stored as closed, without a closing order. -/
theorem closes_of_foreign (hm : v.MissesStop) (hr : v.Runs) (ho : ¬v.OwnRow)
    (hrem : v.thread.attention=some .entryRemainder → v.thread.entryClientOrderId=none) :
    ¬v.Acts ∧ ∃ s', s'.hasStatus v.thread.id .closed ∧
      .put .reconcile v.state v.visit.world s' ∈ v.visit.trace := by
  obtain ⟨x,s',w',h⟩ := hr
  rcases (reconcileOne_inPosition hm.inPosition hm.running).mp h with ⟨cid,ha,hc,-⟩|⟨-,h⟩
  · exact absurd (hrem ha) (by simp [hc])
  · have h := (judge_iff hm.inPosition).mp h
    obtain ⟨h₁,h₂,h₃,h₄,h₅,-⟩ := reconcileInPosition_gone (f := v.facts) ho
    generalize reconcileInPosition v.thread v.facts=r at h h₁ h₂ h₃ h₄ h₅
    obtain ⟨hst,hat,hid,-⟩ := withPaperClose_fields r.next
      (v.paperEvents.find? fun e => e.symbol=v.thread.symbol ∧ (e.kind=.slHit ∨ e.kind=.tpHit))
    rw [Prog.onlyIf,if_pos h₁,h₄] at h
    generalize withPaperClose r.next _=next at h hst hat hid
    simp only [saveThread,Prog.update_bind,Exec.get_iff,Exec.put_iff,
      followUp_closed (hst.trans h₂) (hat.trans h₃),Exec.await_iff,
      Exec.done_iff] at h
    obtain ⟨tr,htr,r',s₁,w₁,tr',rfl,tr'',rfl,rfl,-⟩ := h
    constructor
    · rintro ⟨q,hq,ha⟩
      rw [PassVisit.requests,htr] at hq
      obtain rfl := List.mem_singleton.mp hq
      exact ha
    · refine ⟨_,?_,by rw [htr]; exact List.mem_cons_self⟩
      rw [Runtime.hasStatus_saveThread,if_pos (hid.trans h₅)]
      exact hst.trans h₂

/-- Only a thread judged by its own row is acted for. -/
theorem not_acts_of_foreign (hm : v.MissesStop) (hr : v.Runs) (ho : ¬v.OwnRow) : ¬v.Acts := by
  by_cases hrem : v.thread.attention=some .entryRemainder → v.thread.entryClientOrderId=none
  · exact (closes_of_foreign hm hr ho hrem).1
  · obtain ⟨ha,hc⟩ := Classical.not_imp.mp hrem
    obtain ⟨cid,hc⟩ := Option.ne_none_iff_exists'.mp hc
    exact (idle_of_remainder hm hr ha hc).1

end PassVisit
end TradeGate
