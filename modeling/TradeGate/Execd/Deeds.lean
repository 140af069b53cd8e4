import TradeGate.Execd.Store
import TradeGate.Threads.Basic

/-! What every access of a request does, with the states that the request read before and what it
relied upon since.  The relation between an earlier read and the access is a parameter. -/
namespace TradeGate.Execd
open Threads

section
variable [Crates] (inv : App → Prop) (R : Access → App → App → Prop)

/-- The proposal read the policy in the first state and found its key free, up to the second state,
in which it is inserted. -/
inductive Clear (p : IntentProposeParams) (policy : ExecPolicy) : App → App → Prop
  | noKey {s₀ s : App} (hp : p.idempotencyKey=none) (h : R (.insertIntent p policy) s₀ s) :
      Clear p policy s₀ s
  | free {s₀ s₁ s : App} {key : String} (hp : p.idempotencyKey=some key)
      (hr : R (.findIntent p policy) s₀ s₁) (h₁ : inv s₁)
      (hf : Store.findIntentByIdempotency s₁.db p.principal key=none)
      (h : R (.insertIntent p policy) s₁ s) : Clear p policy s₀ s

/-- What the insertion makes of the store. -/
def inserting (p : IntentProposeParams) (policy : ExecPolicy) (now : ℤ) (s : App) :
    Except String ((Intent × List ExecEvent) × Db) :=
  (txPropose (newIntent p (Crates.newUuid s.drawn) now) (gate p policy).1 (gate p policy).2 now).run s.db

/-- How a proposal comes to its answer. -/
inductive Answered (p : IntentProposeParams) : Except RpcError Reply → App → Prop
  | invalid {s : App} {e : RpcError} (h : validatePropose p=.error e) : Answered p (.error e) s
  | again {s₁ s : App} {key : String} {i : Intent} (hv : validatePropose p=.ok ())
      (hp : p.idempotencyKey=some key) (h₁ : inv s₁)
      (hf : Store.findIntentByIdempotency s₁.db p.principal key=some i)
      (hs : sameContent i p=.ok true)
      (hr : R (.answer (.propose p) (.ok (.proposed i i.gateRejections))) s₁ s) :
      Answered p (.ok (.proposed i i.gateRejections)) s
  | broken {s : App} {i : Intent} {e : RpcError} (hs : sameContent i p=.error e) :
      Answered p (.error e) s
  | conflict {s₁ s₂ s₃ s : App} {key : String} {i : Intent} {ev : ExecEvent} {db : Db}
      (hv : validatePropose p=.ok ()) (hp : p.idempotencyKey=some key) (h₁ : inv s₁)
      (hf : Store.findIntentByIdempotency s₁.db p.principal key=some i)
      (hs : sameContent i p=.ok false) (h₂ : inv s₂) (hr₂ : R (.reportCorruption p i) s₁ s₂) {now : ℤ}
      (ht : (Store.txInsertEvent (corruptionEvent p i key now)).run s₂.db=.ok (ev,db)) (h₃ : inv s₃)
      (hr₃ : R (.publish [ev]) { s₂ with db := db } s₃)
      (hr : R (.answer (.propose p) (.error (conflict i key))) { s₃ with bus := s₃.bus++[ev] } s) :
      Answered p (.error (conflict i key)) s
  | stored {s₀ s₁ s₂ s : App} {now : ℤ} {i : Intent} {evs : List ExecEvent} {db : Db}
      (hv : validatePropose p=.ok ()) (h₀ : inv s₀) (hc : Clear inv R p s₀.currentPolicy s₀ s₁)
      (h₁ : inv s₁) (ht : inserting p s₀.currentPolicy now s₁=.ok ((i,evs),db)) (h₂ : inv s₂)
      (hr₂ : R (.publish evs) { s₁ with db := db, drawn := s₁.drawn+1 } s₂)
      (hr : R (.answer (.propose p) (.ok (.proposed i (gate p s₀.currentPolicy).1)))
        { s₂ with bus := s₂.bus++evs } s) :
      Answered p (.ok (.proposed i (gate p s₀.currentPolicy).1)) s
  | refused {s₀ s₁ s : App} {now : ℤ} {e : String} (hv : validatePropose p=.ok ()) (h₀ : inv s₀)
      (hc : Clear inv R p s₀.currentPolicy s₀ s₁) (h₁ : inv s₁)
      (ht : inserting p s₀.currentPolicy now s₁=.error e) : Answered p (.error (internal e)) s

/-- What an access does. -/
inductive Deed : Access → App → App → Prop
  | load {s : App} (r : Request) : Deed (.loadPolicy r) s s
  | setPolicy {s₀ s : App} {r : PolicyRequest} {policy : ExecPolicy} {evs : List ExecEvent} {db : Db}
      (h₀ : inv s₀) (hr : R (.setPolicy r policy) s₀ s)
      (hn : r.next s₀.currentPolicy s₀.now=.ok policy)
      (ht : (r.tx s₀.currentPolicy policy).run s.db=.ok (evs,db)) :
      Deed (.setPolicy r policy) s { s with db := db }
  | find {s : App} (p : IntentProposeParams) (policy : ExecPolicy) : Deed (.findIntent p policy) s s
  | report {s₁ s : App} {p : IntentProposeParams} {key : String} {i : Intent} {now : ℤ}
      {ev : ExecEvent} {db : Db} (h₁ : inv s₁) (hp : p.idempotencyKey=some key)
      (hf : Store.findIntentByIdempotency s₁.db p.principal key=some i)
      (hr : R (.reportCorruption p i) s₁ s)
      (ht : (Store.txInsertEvent (corruptionEvent p i key now)).run s.db=.ok (ev,db)) :
      Deed (.reportCorruption p i) s { s with db := db }
  | insert {s₀ s : App} {p : IntentProposeParams} {now : ℤ} {i : Intent} {evs : List ExecEvent}
      {db : Db} (hv : validatePropose p=.ok ()) (h₀ : inv s₀)
      (hc : Clear inv R p s₀.currentPolicy s₀ s) (ht : inserting p s₀.currentPolicy now s=.ok ((i,evs),db)) :
      Deed (.insertIntent p s₀.currentPolicy) s { s with db := db, drawn := s.drawn+1 }
  | refuse {s₀ s : App} {p : IntentProposeParams} {now : ℤ} {e : String}
      (hv : validatePropose p=.ok ()) (h₀ : inv s₀) (hc : Clear inv R p s₀.currentPolicy s₀ s)
      (ht : inserting p s₀.currentPolicy now s=.error e) : Deed (.insertIntent p s₀.currentPolicy) s s
  | get {s : App} (p : IntentRejectParams) : Deed (.getIntent p) s s
  | reject {s₀ s : App} {p : IntentRejectParams} {i : Intent} {now : ℤ} {evs : List ExecEvent} {db : Db}
      (h₀ : inv s₀) (hf : Store.getIntent s₀.db p.intentId=some i)
      (ht : i.status.canTransitionTo .rejected=true) (hr : R (.rejectIntent p i) s₀ s)
      (hx : (txReject p (rejectedIntent p i now) now).run s.db=.ok (evs,db)) :
      Deed (.rejectIntent p i) s { s with db := db }
  | missed {s : App} (p : IntentRejectParams) (i : Intent) : Deed (.rejectIntent p i) s s
  | publish {s : App} (evs : List ExecEvent) : Deed (.publish evs) s { s with bus := s.bus++evs }
  | answer {s : App} {r : Request} {reply : Except RpcError Reply}
      (h : ∀ p, r=.propose p → Answered inv R p reply s) : Deed (.answer r reply) s s

theorem Deed.answered {p : IntentProposeParams} {reply : Except RpcError Reply} {s s' : App}
    (h : Deed inv R (.answer (.propose p) reply) s s') : Answered inv R p reply s' := by
  cases h with
  | answer h => exact h p rfl

end

section
variable {C : Pact App Access}

theorem transaction_meets {α : Type} {l : Access} {tx : App → Tx α} {P : Except RpcError α → App → Prop}
    {s : App} (hok : ∀ s', C.inv s' → C.Relies l s s' → ∀ a db, (tx s').run s'.db=.ok (a,db) →
      C.owes l s' { s' with db := db } ∧ P (.ok a) { s' with db := db })
    (herror : ∀ s', C.inv s' → C.Relies l s s' → ∀ e, (tx s').run s'.db=.error e →
      C.owes l s' s' ∧ P (.error (internal e)) s') : C.Meets (transaction l tx) P s := by
  refine Pact.Meets.atomic fun s' hi hr => ?_
  cases ht : (tx s').run s'.db with
  | error e => exact herror s' hi hr e ht
  | ok x => exact hok s' hi hr x.1 x.2 ht

variable [Crates] (hC : ∀ l s s', Deed C.inv C.Relies l s s' → C.owes l s s')

include hC

theorem publish_meets {evs : List ExecEvent} {P : Except RpcError Unit → App → Prop} {s : App}
    (h : ∀ s', C.inv s' → C.Relies (.publish evs) s s' →
      P (.ok ()) { s' with bus := s'.bus++evs }) : C.Meets (publish evs) P s :=
  Pact.Meets.atomic fun s' hi hr => ⟨hC _ _ _ (.publish evs),h s' hi hr⟩

theorem currentPolicy_meets {r : Request} {P : Except RpcError (ExecPolicy × ℤ) → App → Prop} {s : App}
    (h : ∀ s₀, C.inv s₀ → P (.ok (s₀.currentPolicy,s₀.now)) s₀) : C.Meets (currentPolicy r) P s :=
  Pact.Meets.read fun s₀ h₀ _ => ⟨hC _ _ _ (.load r),h s₀ h₀⟩

/-- A policy request that read the current policy stores what it makes of it. -/
theorem setPolicy_meets {r : PolicyRequest} {policy : ExecPolicy} {s₀ : App} (h₀ : C.inv s₀)
    (hn : r.next s₀.currentPolicy s₀.now=.ok policy) :
    C.Meets (do
      let events ← transaction (.setPolicy r policy) fun _ => r.tx s₀.currentPolicy policy
      publish events
      return Reply.policy policy) (fun _ _ => True) s₀ := by
  refine Pact.Meets.bind (transaction_meets (fun s' _ hr evs db ht => ⟨?_,?_⟩)
    fun s' _ _ e ht => ?_)
  · exact hC _ _ _ (.setPolicy h₀ hr hn ht)
  · exact Pact.Meets.bind (publish_meets hC fun _ _ _ => trivial)
  · obtain ⟨evs,hrun⟩ := run_policy r s₀.currentPolicy policy s'.db
    rw [hrun] at ht
    cases ht

theorem policySet_meets (p : PolicySetParams) (s : App) :
    C.Meets (policySet p) (fun _ _ => True) s := by
  refine Pact.Meets.bind (currentPolicy_meets hC fun s₀ h₀ => ?_)
  refine Pact.Meets.bind (Pact.Meets.lift ?_)
  cases hv : validateSet s₀.currentPolicy p.policy p.confirm with
  | error e => trivial
  | ok u =>
    refine setPolicy_meets hC (r := .set p) h₀ ?_
    rw [PolicyRequest.next,hv]
    rfl

theorem emergencyStop_meets (p : EmergencyStopParams) (s : App) :
    C.Meets (emergencyStop p) (fun _ _ => True) s := by
  refine Pact.Meets.bind (currentPolicy_meets hC fun s₀ h₀ => ?_)
  refine Pact.Meets.bind (Pact.Meets.lift ?_)
  cases hv : applyEmergency s₀.currentPolicy p.mode s₀.now with
  | error e => trivial
  | ok next => exact setPolicy_meets hC (r := .stop p) h₀ hv

/-- The answer that a proposal is about to give. -/
def Answering (C : Pact App Access) (p : IntentProposeParams) (x : Except RpcError Reply) (s : App) : Prop :=
  ∀ s', C.inv s' → C.Relies (.answer (.propose p) x) s s' → Answered C.inv C.Relies p x s'

theorem proposeAgain_meets {p : IntentProposeParams} {key : String} {i : Intent} {now : ℤ} {s₁ : App}
    (hv : validatePropose p=.ok ()) (hp : p.idempotencyKey=some key) (h₁ : C.inv s₁)
    (hf : Store.findIntentByIdempotency s₁.db p.principal key=some i) :
    C.Meets (proposeAgain p key i now) (Answering C p) s₁ := by
  refine Pact.Meets.bind (Pact.Meets.lift ?_)
  cases hs : sameContent i p with
  | error e => exact fun _ _ _ => .broken hs
  | ok same =>
    cases same with
    | true => exact fun s' _ hr => .again hv hp h₁ hf hs hr
    | false =>
      refine Pact.Meets.bind (transaction_meets (fun s₂ h₂ hr₂ evs db ht => ?_)
        fun s₂ _ _ e ht => by cases ht)
      obtain ⟨ev,db,ht,h⟩ := Store.run_bind.mp ht
      cases h
      refine ⟨hC _ _ _ (.report h₁ hp hf hr₂ ht),?_⟩
      exact Pact.Meets.bind (publish_meets hC fun s₃ h₃ hr₃ s hi hr =>
        .conflict hv hp h₁ hf hs h₂ hr₂ ht h₃ hr₃ hr)

theorem proposeNew_meets {p : IntentProposeParams} {now : ℤ} {s₀ s₁ : App}
    (hv : validatePropose p=.ok ()) (h₀ : C.inv s₀)
    (hc : ∀ s, C.Relies (.insertIntent p s₀.currentPolicy) s₁ s →
      Clear C.inv C.Relies p s₀.currentPolicy s₀ s) :
    C.Meets (proposeNew p s₀.currentPolicy now) (Answering C p) s₁ := by
  refine Pact.Meets.bind (Pact.Meets.atomic fun s₂ h₂ hr₂ => ?_)
  cases ht : inserting p s₀.currentPolicy now s₂ with
  | error e =>
    unfold inserting at ht
    simp only [ht]
    exact ⟨hC _ _ _ (.refuse hv h₀ (hc _ hr₂) ht),fun s _ _ => .refused hv h₀ (hc _ hr₂) h₂ ht⟩
  | ok x =>
    obtain ⟨⟨i,evs⟩,db⟩ := x
    unfold inserting at ht
    simp only [ht]
    refine ⟨hC _ _ _ (.insert hv h₀ (hc _ hr₂) ht),?_⟩
    exact Pact.Meets.bind (publish_meets hC fun s₃ h₃ hr₃ s _ hr =>
      .stored hv h₀ (hc _ hr₂) h₂ ht h₃ hr₃ hr)

theorem propose_meets (p : IntentProposeParams) (s : App) :
    C.Meets (propose p) (Answering C p) s := by
  refine Pact.Meets.bind (Pact.Meets.lift ?_)
  cases hv : validatePropose p with
  | error e => exact fun _ _ _ => .invalid hv
  | ok u =>
    refine Pact.Meets.bind (currentPolicy_meets hC fun s₀ h₀ => ?_)
    cases hp : p.idempotencyKey with
    | none => exact proposeNew_meets hC hv h₀ fun s hr => .noKey hp hr
    | some key =>
      refine Pact.Meets.bind (Pact.Meets.read fun s₁ h₁ hr₁ => ⟨hC _ _ _ (.find _ _),?_⟩)
      cases hf : Store.findIntentByIdempotency s₁.db p.principal key with
      | some i => exact proposeAgain_meets hC hv hp h₁ hf
      | none => exact proposeNew_meets hC hv h₀ fun s hr => .free hp hr₁ h₁ hf hr

theorem reject_meets (p : IntentRejectParams) (s : App) :
    C.Meets (reject p) (fun _ _ => True) s := by
  refine Pact.Meets.bind (Pact.Meets.read fun s₀ h₀ _ => ⟨hC _ _ _ (.get p),?_⟩)
  cases hf : Store.getIntent s₀.db p.intentId with
  | none => trivial
  | some i =>
    dsimp only
    unfold IntentStatus.transitionTo
    cases ht : i.status.canTransitionTo .rejected with
    | false => trivial
    | true =>
      refine Pact.Meets.bind (transaction_meets (fun s' _ hr evs db hx => ⟨?_,?_⟩)
        fun s' _ _ e _ => ⟨hC _ _ _ (.missed p i),trivial⟩)
      · exact hC _ _ _ (.reject h₀ hf ht hr hx)
      · exact Pact.Meets.bind (publish_meets hC fun _ _ _ => trivial)

theorem handle_meets (r : Request) (s : App) :
    C.Meets (handle r) (fun x s => ∀ p, r=.propose p → Answering C p x s) s := by
  cases r with
  | policy r =>
    cases r with
    | set p => exact (policySet_meets hC p s).mono fun _ _ _ _ h => by cases h
    | stop p => exact (emergencyStop_meets hC p s).mono fun _ _ _ _ h => by cases h
  | propose p => exact (propose_meets hC p s).mono fun _ _ h _ hp => by cases hp; exact h
  | reject p => exact (reject_meets hC p s).mono fun _ _ _ _ h => by cases h

theorem answer_meets {r : Request} {x : Except RpcError Reply} {s : App}
    (h : ∀ p, r=.propose p → Answering C p x s) :
    C.Meets (Thread.access (.answer r x) id fun _ => .done () : Handler Unit) (fun _ _ => True) s :=
  fun s' hi hr => ⟨hC _ _ _ (.answer fun p hp => by subst hp; exact h p rfl s' hi hr),trivial⟩

/-- Every access of a request is a deed. -/
theorem dispatch_meets (r : Request) (s : App) : C.Meets (dispatch r) (fun _ _ => True) s := by
  unfold dispatch
  refine Pact.Meets.bind (Pact.Meets.outcome ?_)
  exact (handle_meets hC r s).mono fun _ _ h => answer_meets hC h

end
end TradeGate.Execd
