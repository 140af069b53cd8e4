import TradeGate.Coop.Going
import TradeGate.Custody.Plans
import TradeGate.Custody.Verify
import TradeGate.Entry.Once
import TradeGate.Lifecycle.Sole

/-! What is written down stays: over every interleaving threads keep their plans and intents their terms,
an opening intent says what the plan of its thread says, and so does every order. -/
namespace TradeGate
open Coop Contract

variable [Host]

/-- An intent in hand is stored, on its terms. -/
def filing : Custody Unit where
  inv s _ := Filed s
  held _ _ _ := True
  known _ _ _ := True
  kin _ _ _ := True
  leg _ _ _ _ := True
  again _ _ _ _ := True
  spent _ _ _ := True
  ticket _ _ _ _ := True
  owned i s _ := ∃ x, s.intent i.id=some x ∧ x.terms=i.terms
  pairs _ _ _ _ := True
  back s _ _ _ s' _ := Filed s' ∧ Onward s s'
  watch := False

omit [Host] in
theorem filing_files : filing.Files := ⟨⟨fun h => h⟩,fun h => h⟩

theorem filing_laws {p : Power} : filing.Laws p where
  known_of_held _ := trivial
  kin_of_held _ _ := trivial
  kin_plan _ _ := trivial
  back_inv _ hb := hb.1
  back_held _ _ _ := trivial
  back_known _ _ _ := trivial
  back_kin _ _ _ := trivial
  back_leg _ _ _ _ := trivial
  back_again _ _ _ := trivial
  back_spent _ _ _ := trivial
  back_ticket _ _ _ _ := trivial
  back_owned _ hb h := Custody.owned_onward h hb.2
  back_now hw := hw.elim
  listed _ _ _ := trivial
  reread _ _ := trivial
  takeIntent {i s w} _ hi := ⟨i,hi,rfl⟩
  takePair _ _ _ _ _ := trivial
  deed_inv h hd := hd.filed filing_files h
  deed_quiet _ _ _ := ⟨fun h => h,fun h => h⟩
  watch_known hw := hw.elim
  watch_spent hw := hw.elim
  deed_edit _ _ _ _ := trivial
  deed_known _ _ _ _ _ _ := trivial
  deed_mints _ _ _ _ _ := trivial
  deed_create _ _ _ := trivial
  deed_kin _ _ _ := trivial
  deed_leg _ _ _ := trivial
  deed_again _ _ _ := trivial
  deed_spent _ _ _ := trivial
  deed_ticket _ _ _ := trivial
  deed_owned _ hd ho := Custody.owned_onward ho (hd.onward filing_files.toOwns)
  patch_owned _ h ht := Custody.owned_congr h ht
  propose {t i s w s'} _ h hc _ hd := by
    have hi : s'.intent i.id=some i := by rw [hd.intents,if_pos rfl]
    exact ⟨hd.filed h hc.unborn,trivial,⟨i,hi,rfl⟩,trivial⟩
  mint {t u i j s w} _ h _ ho _ _ ht _ _ := by
    obtain ⟨x,hx,hxt⟩ := ho
    refine ⟨(h.saveThread u).decide (i := i) (x := x) hx hxt ht,fun _ _ _ => trivial,trivial,trivial,trivial,?_⟩
    exact ⟨j,by rw [intent_saveIntent,if_pos rfl],rfl⟩

/-- Intents are kept, whatever the operations do. -/
def filesGo : Going Runtime where
  inv := Filed
  goes := Onward
  refl := .refl
  trans := .trans

theorem filesGo_carries (ok : Config Runtime Unit Writer Call Answer String Operation →
    Action Runtime Writer Call Answer String Operation →
    Config Runtime Unit Writer Call Answer String Operation → Prop) :
    filesGo.Carries (fun o => filing.contract o.power) gateway ok where
  start o s w ts c' hi _ := by
    refine (o.program_keeps filing_laws (show filing.inv s w from hi) ?_).mono fun _ _ _ h => h
    exact o.admitted_of_unwatched (fun hw => hw) (fun _ => trivial) (fun _ _ _ => trivial) fun _ _ _ _ _ _ _ _ => trivial
  write o s w l s' h := h.onward filing_files.toOwns
  may o s w q h := h.1
  quit o s w h := h
  back o s w q r s' w' _ hi hg := ⟨hi,hg⟩
  drift := by
    rintro s w s' w' hi ⟨ms,rfl⟩
    exact ⟨⟨hi.stored,hi.single⟩,fun _ i hi => ⟨i,hi,rfl,fun h => h⟩,fun _ h => h⟩

/-- The terms of an opening intent are those of the plan. -/
structure Terms.Follows (x : Terms) (p : Plan) : Prop where
  symbol : x.symbol=p.symbol
  side : x.direction=p.side
  entry : x.entry=p.entry.type
  price : p.entry.price=if x.entry=.limit then x.limitPrice else none
  stop : x.stopPrice=p.stopPrice

/-- Every opening intent follows the plan of a stored thread. -/
def Matched (s : Runtime) : Prop := ∀ id, ∀ i ∈ s.intent id, i.kind=.open →
  ∃ tid ∈ i.threadId, ∃ t ∈ s.thread tid, i.terms.Follows t.plan

section
variable {s s' : Runtime} {i : DemoIntent} {t : StrategyThread} {p : Power} {l : Writer} {w : Unit}

omit [Host] in
theorem DrawnFor.follows (h : DrawnFor i t) : i.terms.Follows t.plan :=
  ⟨h.symbol,h.side,h.entry,h.price,h.stop⟩

omit [Host] in
theorem Matched.kept (h : Matched s) (hp : PlansKept s s') (hold : ∀ id, ∀ y ∈ s'.intent id, y.kind=.open →
    (∃ x ∈ s.intent id, x.terms=y.terms) ∨ ∃ t ∈ s'.thread t.id, DrawnFor y t) : Matched s' := by
  intro id y hy hk
  rcases hold id y hy hk with ⟨x,hx,hxt⟩ | ⟨t,ht,hd⟩
  · obtain ⟨-,hk',htid⟩ := terms_parts hxt
    obtain ⟨tid,hmem,t,ht,hf⟩ := h id x hx (hk'.trans hk)
    obtain ⟨t',ht',hplan⟩ := hp tid t ht
    refine ⟨tid,htid ▸ hmem,t',ht',?_⟩
    rw [hplan,← hxt]
    exact hf
  · exact ⟨t.id,hd.thread,t,ht,hd.follows⟩

/-- No write takes an opening intent away from the plan of its thread. -/
theorem Custody.Stroke.matched (h : filing.Stroke p l s w s') (hp : PlansKept s s') (hm : Matched s) : Matched s' := by
  refine hm.kept hp ?_
  intro id y hy hk
  cases h with
  | deed hi hd =>
    rcases hd.intents.origin filing_files.toOwns with hold | ⟨i,hne,h⟩
    · exact .inl (hold id y hy)
    · rw [Option.mem_def,Runtime.intent,h] at hy
      change (s.saveIntent i).intent id=some y at hy
      rw [intent_saveIntent] at hy
      split at hy
      · cases hy
        exact absurd hk hne
      · exact .inl ⟨y,hy,rfl⟩
  | proposes t _ _ _ h =>
    subst h
    exact .inl ⟨y,hy,rfl⟩
  | draws s₀ t i _ _ _ hs hd =>
    subst hs
    rw [Option.mem_def,hd.intents] at hy
    split at hy
    · cases hy
      obtain ⟨ids,hids⟩ := hd.threads
      have ht : s'.thread t.id=some { t with intentIds := ids } := by rw [hids,if_pos rfl]
      exact .inr ⟨{ t with intentIds := ids },ht,⟨hd.drawn.thread,hd.drawn.symbol,hd.drawn.side,hd.drawn.qty,
        hd.drawn.entry,hd.drawn.price,hd.drawn.stop⟩⟩
    · exact .inl ⟨y,hy,rfl⟩
  | takes t u _ _ _ _ _ _ h =>
    subst h
    exact .inl ⟨y,hy,rfl⟩
  | approves s₀ t u i j _ _ _ ho _ _ hs ht _ _ h =>
    subst h hs
    obtain ⟨x,hx,hxt⟩ := ho
    rw [Option.mem_def,intent_saveIntent,(terms_parts ht).1] at hy
    split at hy
    next hid =>
      cases hy
      exact .inl ⟨x,hid ▸ hx,hxt.trans ht.symm⟩
    · exact .inl ⟨y,hy,rfl⟩

end

/-! Verifications of the protection beside the operations. -/
section
variable {T : Going Runtime} {C : Operation → Contract Runtime Unit Writer Call Answer}

/-- The contracts of the operations, and those of verifications under the same invariant. -/
def beside (C : Operation → Contract Runtime Unit Writer Call Answer) (T : Going Runtime) :
    Operation ⊕ Verification → Contract Runtime Unit Writer Call Answer :=
  Sum.elim C fun v => verifying Unit v.symbol T.inv fun _ => True

/-- What depends on threads and intents only, verifications carry as well. -/
theorem beside_carries (h : T.Carries C gateway anyStep)
    (hinv : ∀ s s' : Runtime, s'.threads=s.threads → s'.intents=s.intents → T.inv s → T.inv s')
    (hgoes : ∀ s s' : Runtime, s'.threads=s.threads → s'.intents=s.intents → T.goes s s') :
    T.Carries (beside C T) wholeGateway anyStep :=
  h.adding {
    start := fun v _ _ _ _ hi _ => (verifyProtection_keeps (N := fun _ => True) v.symbol hinv
      (fun _ _ _ _ _ => trivial) hi trivial).mono fun _ _ _ h => h
    write := fun _ _ _ _ _ h => hgoes _ _ h.1 h.2
    may := fun _ _ _ _ h => h.1
    quit := fun _ _ _ h => h
    back := fun _ _ _ _ _ _ _ _ hi _ => ⟨hi,fun _ _ => trivial⟩
    drift := h.drift }

theorem plans_carries : plansGo.Carries (beside (fun o => (planned Unit none).contract o.power) plansGo)
    wholeGateway anyStep :=
  beside_carries (plansGo_carries anyStep)
    (fun _ _ ht _ hi => hi.of_threads ht) fun _ _ ht _ => .of_threads ht

theorem files_carries : filesGo.Carries (beside (fun o => filing.contract o.power) filesGo)
    wholeGateway anyStep :=
  beside_carries (filesGo_carries anyStep)
    (fun _ _ ht hi hf => hf.kept (fun id y hy => ⟨y,by rwa [Option.mem_def,Runtime.intent,← hi],rfl⟩)
      fun id hid => by rwa [thread_congr ht])
    fun _ _ ht hi => ⟨fun id i h => ⟨i,by rwa [Option.mem_def,Runtime.intent,hi],rfl,fun h => h⟩,
      fun id hid => by rwa [thread_congr ht]⟩

end

/-- Every operation under way keeps plans and terms, and opening intents follow their plans. -/
structure Recorded (c : Config Runtime Unit Writer Call Answer String (Operation ⊕ Verification)) : Prop where
  plans : plansGo.Kept (beside (fun o => (planned Unit none).contract o.power) plansGo) c
  files : filesGo.Kept (beside (fun o => filing.contract o.power) filesGo) c
  matched : Matched c.state

section
variable {c c' c₀ : Config Runtime Unit Writer Call Answer String (Operation ⊕ Verification)}
  {a : Action Runtime Writer Call Answer String (Operation ⊕ Verification)}

/-- Each write of a step keeps the plans and the terms. -/
theorem Recorded.writes (h : Recorded c) (hs : Step wholeGateway c a c') :
    ∀ x ∈ a.writes, PlansKept x.pre x.post ∧ Onward x.pre x.post ∧ (Matched x.pre → Matched x.post) := by
  intro x hx
  obtain ⟨o,hop,-,-⟩ | ⟨-,hw,-⟩ | ⟨-,hw,-⟩ := hs.kind
  · have hp := (plans_carries.step h.plans hs trivial).2.writes o hop x hx
    have hf := (files_carries.step h.files hs trivial).2.writes o hop x hx
    have hplan := plans_carries.write o _ _ _ _ hp
    refine ⟨hplan,files_carries.write o _ _ _ _ hf,?_⟩
    cases o with
    | inl o => exact Custody.Stroke.matched hf hplan
    | inr v =>
      have hi : x.post.intents=x.pre.intents := hf.2
      exact fun hm => hm.kept hplan fun id y hy _ => .inl ⟨y,by rwa [Option.mem_def,Runtime.intent,← hi],rfl⟩
  · rw [hw] at hx
    cases hx
  · rw [hw] at hx
    cases hx

theorem Recorded.step (h : Recorded c) (hs : Step wholeGateway c a c') :
    Recorded c' ∧ ∀ x ∈ a.writes, Matched x.post := by
  have hplans := (plans_carries.step h.plans hs trivial).1
  have hfiles := (files_carries.step h.files hs trivial).1
  obtain ⟨o,hop,hc,-⟩ | ⟨-,hw,-,he,-⟩ | ⟨-,hw,-,ms,hms⟩ := hs.kind
  · obtain ⟨h₁,h₂⟩ := hc.keeps Matched (fun x hx => (h.writes hs x hx).2.2) h.matched
    exact ⟨⟨hplans,hfiles,h₁⟩,h₂⟩
  · exact ⟨⟨hplans,hfiles,he ▸ h.matched⟩,by simp [hw]⟩
  · exact ⟨⟨hplans,hfiles,by rw [hms]; exact h.matched⟩,by simp [hw]⟩

theorem recorded_run {backend : Backend} {workflow : Workflow} {now : ℕ}
    (h : Run wholeGateway anyStep ⟨Runtime.fresh backend workflow now,(),[]⟩ c) : Recorded c := by
  have hnone : ∀ id, (Runtime.fresh backend workflow now).thread id=none := fun _ => rfl
  have hno : ∀ id, (Runtime.fresh backend workflow now).intent id=none := fun _ => rfl
  refine h.invariant ⟨⟨?_,by simp⟩,⟨⟨?_,?_⟩,by simp⟩,?_⟩ fun _ _ _ hr hs _ => (hr.step hs).1
  · intro id u hu
    rw [Option.mem_def,hnone] at hu
    cases hu
  all_goals
    intro id
    simp [hno]

/-- Over every interleaving of operations and verifications: a stored thread stays stored and keeps its
plan, a stored intent stays stored, keeps its terms and once decided is not pending again, each write
included; a thread has at most one opening intent, and that follows the thread's plan.  That new ids are
new is `Host.id_fresh`. -/
theorem records_kept {backend : Backend} {workflow : Workflow} {now : ℕ}
    (h₀ : Run wholeGateway anyStep ⟨Runtime.fresh backend workflow now,(),[]⟩ c₀)
    (h : Run wholeGateway anyStep c₀ c) (hs : Step wholeGateway c a c') :
    PlansKept c₀.state c'.state ∧ Onward c₀.state c'.state ∧ Filed c'.state ∧ Matched c'.state ∧
      ∀ x ∈ a.writes, PlansKept x.pre x.post ∧ Onward x.pre x.post ∧ Matched x.post := by
  have hr₀ := recorded_run h₀
  have hr : Recorded c := h.invariant hr₀ fun _ _ _ hr hs _ => (hr.step hs).1
  obtain ⟨hr',hwrites⟩ := hr.step hs
  have hplans := plans_carries.goes hr₀.plans (h.step hs trivial)
  have hfiles := files_carries.goes hr₀.files (h.step hs trivial)
  refine ⟨hplans,hfiles,hr'.files.inv,hr'.matched,?_⟩
  intro x hx
  obtain ⟨hp,ho,-⟩ := hr.writes hs x hx
  exact ⟨hp,ho,hwrites x hx⟩

/-! Orders. -/

/-- An order, a cancel or a setting that says what the plan says. -/
def Call.follows (p : Plan) : Call → Prop
  | .setLeverage symbol leverage => symbol=p.symbol ∧ leverage=p.leverage
  | .setMarginType symbol mode => symbol=p.symbol ∧ mode=p.marginMode
  | .placeEntry req =>
    req.symbol=p.symbol ∧ req.direction=p.side ∧ req.entry=p.entry.type ∧ req.limitPrice=p.entry.price
  | .openWithProtection req => req.entry.symbol=p.symbol ∧ req.entry.direction=p.side ∧
    req.entry.entry=p.entry.type ∧ p.stopPrice=some req.stopPrice ∧
    ∀ x ∈ req.takeProfit, p.takeProfits.head?=some x.1
  | .placeStop symbol position price _ => symbol=p.symbol ∧ position=p.side ∧ p.stopPrice=some price
  | .placeTakeProfit symbol position price _ =>
    symbol=p.symbol ∧ position=p.side ∧ p.takeProfits.head?=some price
  | .closePosition symbol _ | .reducePosition symbol _ _ | .cancelAll symbol | .cancelOrder symbol _ =>
    symbol=p.symbol
  | _ => False

omit [Host] in
theorem Call.servesThread.follows {q : Call} {t : StrategyThread} (h : q.servesThread t) : q.follows t.plan := by
  cases q with
  | placeStop => exact h
  | placeTakeProfit => exact h
  | closePosition => exact h
  | reducePosition => exact h
  | cancelAll => exact h
  | cancelOrder => exact h.1
  | _ => exact h.elim

omit [Host] in
theorem Call.opensThread.follows {q : Call} {t : StrategyThread} {cid : String} (h : q.opensThread t cid) :
    q.follows t.plan := by
  cases q with
  | setLeverage => exact h
  | setMarginType => exact h
  | placeEntry req =>
    change req=_ at h
    rw [h]
    exact ⟨rfl,rfl,rfl,rfl⟩
  | openWithProtection req =>
    obtain ⟨hreq,hmarket,hstop,htarget⟩ := h
    exact ⟨by rw [hreq]; rfl,by rw [hreq]; rfl,by rw [hreq]; exact hmarket.symm,hstop,htarget⟩
  | _ => exact h.elim

/-- The request is for the stored thread, says what its plan says, and places orders under its ids. -/
structure Call.Belongs (q : Call) (id : String) (s : Runtime) : Prop where
  follows : ∃ t ∈ s.thread id, q.follows t.plan
  places : ∀ cid ∈ q.places, ∃ leg n, cid=legCid id leg n

/-- A request asks, clears a symbol, switches the backend, or belongs to a stored thread. -/
theorem Custody.Plea.belongs {p : Power} {s : Runtime} {w : Unit} {q : Call}
    (h : (planned Unit none).Plea p s w q) : q.asks ∨ q.clears ∨
      ((∃ kind, q=.startBackend kind) ∨ ∃ kind, q=.stopBackend kind) ∨ ∃ id, q.Belongs id s := by
  cases h with
  | asks h => exact .inl h
  | serves t ht h hc =>
    obtain ⟨⟨u,hu,hplan⟩,-⟩ := ht
    exact .inr (.inr (.inr ⟨t.id,⟨u,hu,by rw [hplan]; exact h.follows⟩,hc⟩))
  | again t cid price ht h hp hc =>
    obtain ⟨⟨u,hu,hplan⟩,-⟩ := ht
    subst h
    refine .inr (.inr (.inr ⟨t.id,⟨u,hu,by rw [hplan]; exact ⟨rfl,rfl,hp⟩⟩,?_⟩))
    intro c hmem
    rw [List.mem_singleton.mp hmem]
    exact hc
  | opens t cid hp ht h hc =>
    obtain ⟨⟨u,hu,hplan⟩,-,n,hn⟩ := ht
    refine .inr (.inr (.inr ⟨t.id,⟨u,hu,by rw [hplan]; exact h.follows⟩,?_⟩))
    intro c hmem
    rcases hc c hmem with rfl | hleg
    · exact ⟨.e,n,hn⟩
    · exact hleg
  | clears h => exact .inr (.inl h)
  | switches _ h => exact .inr (.inr (.inl h))

/-- Over every interleaving: what is sent only asks, clears a symbol or switches the backend, or it is an
order of a verification, or it belongs to a stored thread, and then says what the plan of the thread said in
every state before. -/
theorem orders_as_planned {backend : Backend} {workflow : Workflow} {now : ℕ}
    (h₀ : Run wholeGateway anyStep ⟨Runtime.fresh backend workflow now,(),[]⟩ c₀)
    (h : Run wholeGateway anyStep c₀ c) (hs : Step wholeGateway c a c') :
    ∀ q ∈ a.sent, q.asks ∨ q.clears ∨ ((∃ kind, q=.startBackend kind) ∨ ∃ kind, q=.stopBackend kind) ∨
      (∃ symbol, a.op=some (.inr (.verifyProtection symbol)) ∧ q.verifies symbol) ∨
      ∃ id, q.Belongs id c'.state ∧ ∀ t ∈ c₀.state.thread id, q.follows t.plan := by
  intro q hq
  have hr₀ := recorded_run h₀
  have hr : Recorded c := h.invariant hr₀ fun _ _ _ hr hs _ => (hr.step hs).1
  obtain ⟨o,hop⟩ : ∃ o, o ∈ a.op := by
    cases hs with
    | start o => exact ⟨o,rfl⟩
    | serve => cases hq
    | resume => exact ⟨_,rfl⟩
    | drift => cases hq
  have hmay := (plans_carries.step hr.plans hs trivial).2.sent o hop q hq
  cases o with
  | inr v =>
    rcases hmay.2.1 with hask | hclear | horder
    · exact .inl hask
    · exact .inr (.inl hclear)
    · exact .inr (.inr (.inr (.inl ⟨v.symbol,hop,horder⟩)))
  | inl o =>
    rcases hmay.2.belongs with hask | hclear | hswitch | ⟨id,hbelongs⟩
    · exact .inl hask
    · exact .inr (.inl hclear)
    · exact .inr (.inr (.inl hswitch))
    · refine .inr (.inr (.inr (.inr ⟨id,hbelongs,?_⟩)))
      intro t ht
      obtain ⟨t',ht',hplan⟩ := plans_carries.goes hr₀.plans (h.step hs trivial) id t ht
      obtain ⟨u,hu,hfollows⟩ := hbelongs.follows
      rw [Option.mem_def,hu] at ht'
      cases ht'
      rwa [← hplan]

end

section scripts

/-- An order of the panel has stored its thread and its intent, and its entry is about to be sent; a poll
is under way. -/
def beforeEntry : Config Runtime Unit Writer Call Answer String (Operation ⊕ Verification) :=
  wholeAfter .demo polledMoves

/-- A flat account of a symbol that is not traded, at a mark of 25. -/
def verifyAnswer : (q : Call) → Answer q
  | .markPrice _ => .ok "25"
  | .symbolRules _ => .ok ⟨"0.01","0.001","0.01","5"⟩
  | q => flatAnswer q

/-- A verification, up to the answer after which it opens its position. -/
def verifyMoves : List (Move Runtime Unit Call Answer (Operation ⊕ Verification)) :=
  [.start (.inr (.verifyProtection "HYPEUSDT")),.serve 0 verifyAnswer id,.resume 0,.serve 0 verifyAnswer id,
    .resume 0,.serve 0 verifyAnswer id,.resume 0,.serve 0 verifyAnswer id]

omit [Host] in
theorem timely_verifyMoves : verifyMoves.Forall Timely :=
  ⟨trivial,trivial,trivial,trivial,trivial,trivial,trivial,trivial⟩

end scripts

omit [Host] in
theorem run_beforeEntry : letI := oneDigest
    Run wholeGateway anyStep ⟨Runtime.fresh .demo someWorkflow 100000000,(),[]⟩ beforeEntry := by
  let := oneDigest
  exact .of_play .refl (wholeGateway_legalPlay timely_polledMoves _)

omit [Host] in
/-- The thread and the intent of a panel order stay while its entry is sent. -/
theorem records_kept_panel : letI := oneDigest
    (beforeEntry.state.thread "thr-0").isSome ∧
      PlansKept beforeEntry.state (beforeEntry.move wholeGateway (.resume 0)).state ∧
      Matched (beforeEntry.move wholeGateway (.resume 0)).state := by
  let := oneDigest
  have hs : Step wholeGateway beforeEntry (beforeEntry.act wholeGateway (.resume 0))
      (beforeEntry.move wholeGateway (.resume 0)) := .of_applies trivial (by decide +kernel)
  have h := records_kept run_beforeEntry .refl hs
  exact ⟨by decide +kernel,h.1,h.2.2.2.1⟩

omit [Host] in
/-- The entry of the panel order belongs to its thread, and the one of a verification to none. -/
theorem orders_as_planned_panel : letI := oneDigest
    (∃ q ∈ (beforeEntry.act wholeGateway (.resume 0)).sent, ∃ id,
      q.Belongs id (beforeEntry.move wholeGateway (.resume 0)).state) ∧
      ∃ q ∈ ((wholeAfter .agentMcp verifyMoves).act wholeGateway (.resume 0)).sent, q.verifies "HYPEUSDT" := by
  let := oneDigest
  constructor
  · have hs : Step wholeGateway beforeEntry (beforeEntry.act wholeGateway (.resume 0))
        (beforeEntry.move wholeGateway (.resume 0)) := .of_applies trivial (by decide +kernel)
    have hsome : ((beforeEntry.act wholeGateway (.resume 0)).sent.bind Call.entry?).isSome := by decide +kernel
    obtain ⟨req,hreq⟩ := Option.isSome_iff_exists.mp hsome
    obtain ⟨q,hq,hent⟩ := Option.bind_eq_some_iff.mp hreq
    refine ⟨q,hq,?_⟩
    rcases orders_as_planned run_beforeEntry .refl hs q hq with hask | hclear | hswitch | ⟨symbol,hop,-⟩ | ⟨id,hid,-⟩
    · cases q <;> first | exact hask.elim | cases hent
    · cases q <;> first | exact hclear.elim | cases hent
    · rcases hswitch with ⟨kind,rfl⟩ | ⟨kind,rfl⟩ <;> cases hent
    · have hown : (beforeEntry.act wholeGateway (.resume 0)).op=
          some (.inl (.manualOrder (panelOrder "BTCUSDT") false)) := by decide +kernel
      rw [hown] at hop
      cases hop
    · exact ⟨id,hid⟩
  · have h : Run wholeGateway anyStep ⟨Runtime.fresh .agentMcp someWorkflow 100000000,(),[]⟩
        (wholeAfter .agentMcp verifyMoves) :=
      .of_play .refl (wholeGateway_legalPlay timely_verifyMoves _)
    have hs : Step wholeGateway (wholeAfter .agentMcp verifyMoves)
        ((wholeAfter .agentMcp verifyMoves).act wholeGateway (.resume 0))
        ((wholeAfter .agentMcp verifyMoves).move wholeGateway (.resume 0)) := .of_applies trivial (by decide +kernel)
    have hsome : (((wholeAfter .agentMcp verifyMoves).act wholeGateway (.resume 0)).sent.bind Call.entry?).isSome := by
      decide +kernel
    have hnone : ((wholeAfter .agentMcp verifyMoves).move wholeGateway (.resume 0)).state.threads.rows=[] := by
      decide +kernel
    obtain ⟨req,hreq⟩ := Option.isSome_iff_exists.mp hsome
    obtain ⟨q,hq,hent⟩ := Option.bind_eq_some_iff.mp hreq
    refine ⟨q,hq,?_⟩
    rcases orders_as_planned h .refl hs q hq with hask | hclear | hswitch | ⟨symbol,hop,hv⟩ | ⟨id,hid,-⟩
    · cases q <;> first | exact hask.elim | cases hent
    · cases q <;> first | exact hclear.elim | cases hent
    · rcases hswitch with ⟨kind,rfl⟩ | ⟨kind,rfl⟩ <;> cases hent
    · have hown : ((wholeAfter .agentMcp verifyMoves).act wholeGateway (.resume 0)).op=
          some (.inr (.verifyProtection "HYPEUSDT")) := by decide +kernel
      rw [hown] at hop
      cases hop
      exact hv
    · obtain ⟨t,ht,-⟩ := hid.follows
      have hmem := Keyed.Table.mem_of_lookup ht
      rw [hnone] at hmem
      cases hmem

end TradeGate
