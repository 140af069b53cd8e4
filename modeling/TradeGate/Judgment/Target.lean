import TradeGate.Entry.Footprint
import TradeGate.Entry.Once
import TradeGate.Lifecycle.Sole
import TradeGate.Machine.Run
import TradeGate.Model.Judgment

/-! The thread that an operation opens from a proposal.  The write that stores it is signed as a
proposal's; what follows, the entry and its protection, never is. -/
namespace TradeGate
open Coop Contract

/-- The proposal and the take profits that the operation makes a thread of. -/
def Operation.proposes : Operation → Option (Proposal × List String)
  | .scan _ _ p takeProfits _ _ => some (p,takeProfits)
  | .openThreadFromProposal _ p takeProfits _ _ _ => some (p,takeProfits)
  | _ => none

/-- The thread has the side, the entry, the stop and the targets of the proposal. -/
structure DrawnFrom (t : StrategyThread) (r : Proposal × List String) : Prop where
  side : t.side=r.1.direction
  entry : t.entry=⟨r.1.entry,if r.1.entry=.limit then r.1.limitPrice else none⟩
  stop : t.stopPrice=r.1.stopPrice
  targets : t.takeProfits=r.2

theorem DrawnFrom.congr {t u : StrategyThread} {r : Proposal × List String} (h : DrawnFrom t r)
    (hp : u.plan=t.plan) : DrawnFrom u r :=
  ⟨(congrArg Plan.side hp).trans h.side,(congrArg Plan.entry hp).trans h.entry,
    (congrArg Plan.stopPrice hp).trans h.stop,(congrArg Plan.takeProfits hp).trans h.targets⟩

/-- A write signed as a proposal's stores a thread of the proposal. -/
def signing (o : Operation) : Contract Runtime Unit Writer Call Answer where
  may _ _ _ := True
  write s _ l s' := l=.propose → ∀ r ∈ o.proposes, ∃ u, s'=s.saveThread u ∧ DrawnFrom u r
  back _ _ _ _ _ _ := True

section
variable [Host] {o : Operation}

omit [Host] in
theorem signing_of_within {α : Type} {p : RT α} (h : p.Within (· ≠ .propose) fun _ => True)
    (s : Runtime) (w : Unit) : (signing o).Meets p (fun _ _ _ => True) s w :=
  h.labels.meets (fun _ _ _ _ hl he => absurd he hl) (fun _ _ _ => trivial) (fun _ _ => trivial) s w

omit [Host] in
theorem signing_other {l : Writer} (h : l ≠ .propose) (s : Runtime) (w : Unit) (s' : Runtime) :
    (signing o).write s w l s' := fun he => absurd he h

theorem openThreadFromProposal_signing {symbol : String} {p : Proposal} {takeProfits : List String}
    {staleMark : String} {source : ThreadSource} {forceApproval : Bool}
    (ho : o.proposes=some (p,takeProfits)) (s : Runtime) (w : Unit) : (signing o).Meets
      (openThreadFromProposal symbol p takeProfits staleMark source forceApproval)
      (fun _ _ _ => True) s w := by
  have hdrawn : ∀ (s : Runtime) (u : StrategyThread), DrawnFrom u (p,takeProfits) →
      (signing o).write s () .propose (s.saveThread u) := fun s u hu _ r hr => by
    rw [Option.mem_def,ho] at hr
    cases hr
    exact ⟨u,rfl,hu⟩
  simp only [openThreadFromProposal,Meets.request_bind]
  refine ⟨trivial,fun r s₁ w₁ _ => ?_⟩
  cases r with
  | error e => trivial
  | ok rules =>
    simp only [orThrow,Prog.done_bind,Meets.request_bind]
    refine ⟨trivial,fun r s₂ w₂ _ => ?_⟩
    cases r with
    | error e => trivial
    | ok account =>
      simp only [Prog.done_bind,Meets.update_bind,Meets.read_bind,Meets.request_bind]
      refine ⟨signing_other (by decide) _ _ _,trivial,fun m s₃ w₃ _ => ?_⟩
      split
      · trivial
      · generalize computeSizing _ _ _ _ _ _ _ _=sizing
        refine ⟨hdrawn _ _ ⟨rfl,rfl,rfl,rfl⟩,?_⟩
        change (signing o).Meets (newIntent _ _ _ >>= _) _ _ _
        refine Meets.bind (signing_of_within (newIntent_within (protection_or_intent fun _ h => h) _ _ _) _ _)
          fun i s₅ w₅ _ => ?_
        split
        · rw [Meets.bind_iff]
          exact ⟨signing_other (by decide) _ _ _,hdrawn _ _ ⟨rfl,rfl,rfl,rfl⟩,trivial⟩
        · split
          · trivial
          · exact signing_of_within
              (executeOpen_within (fun _ _ => trivial) (fun _ h => h) (fun _ => trivial) _ _) s₅ w₅

/-- The operations keep the contract, whatever else goes on. -/
theorem Operation.program_signing (o : Operation) (s : Runtime) (w : Unit) :
    (signing o).Meets o.program (fun _ _ _ => True) s w := by
  have hnone : o.proposes=none → (signing o).Meets o.program (fun _ _ _ => True) s w := fun ho =>
    (Prog.Labels.any o.program).meets (fun _ _ _ _ _ _ r hr => by
      rw [Option.mem_def,ho] at hr
      cases hr) (fun _ _ _ => trivial) (fun _ _ => trivial) s w
  cases o with
  | scan symbol at_ p takeProfits mark gates =>
    simp only [Operation.program,applyProposal,Meets.read_bind]
    split
    · exact openThreadFromProposal_signing rfl s w
    · trivial
  | openThreadFromProposal symbol p takeProfits mark source force =>
    exact openThreadFromProposal_signing rfl s w
  | _ => exact hnone rfl

/-- Nothing is asked of the state. -/
def anywhere : Going Runtime := ⟨fun _ => True,fun _ _ => True,fun _ => trivial,fun _ _ => trivial⟩

theorem anywhere_carries (ok : Config Runtime Unit Writer Call Answer String Operation →
    Action Runtime Writer Call Answer String Operation →
    Config Runtime Unit Writer Call Answer String Operation → Prop) :
    anywhere.Carries signing gateway ok where
  start o s w _ _ _ _ := o.program_signing s w
  write _ _ _ _ _ _ := trivial
  may _ _ _ _ _ := trivial
  quit _ _ _ _ := trivial
  back _ _ _ _ _ _ _ _ _ _ := trivial
  drift _ _ _ _ _ _ := ⟨trivial,trivial⟩

/-- The operation stores the thread, new to the store, as that of its proposal. -/
def Opens (o : Operation) (a : Action Runtime Writer Call Answer String Operation)
    (t : StrategyThread) : Prop := a.op=some o ∧ ∃ x ∈ a.writes, x.label=.propose ∧ Births x t

variable {c₀ c c' : Config Runtime Unit Writer Call Answer String Operation}
  {a : Action Runtime Writer Call Answer String Operation}
  {ok : Config Runtime Unit Writer Call Answer String Operation →
    Action Runtime Writer Call Answer String Operation →
    Config Runtime Unit Writer Call Answer String Operation → Prop}

/-- The thread that an operation opens from a proposal is one of the proposal. -/
theorem Opens.drawn (h₀ : c₀.tasks=[]) (h : Run gateway ok c₀ c) (hs : Step gateway c a c')
    (ha : ok c a c') {t : StrategyThread} (ho : Opens o a t) {r : Proposal × List String}
    (hr : o.proposes=some r) : DrawnFrom t r := by
  have hc : anywhere.Kept signing c := (anywhere_carries ok).run ⟨trivial,by simp [h₀]⟩ h
  obtain ⟨hop,x,hx,hl,hb,ht⟩ := ho
  obtain ⟨u,hu,hd⟩ := ((anywhere_carries ok).step hc hs ha).2.writes o hop x hx hl r hr
  rw [hu,Runtime.thread_saveThread] at ht
  split at ht
  · cases ht
    exact hd
  · rw [hb] at ht
    cases ht

end
end TradeGate

/-! The take profit that a judgment's thread sends.  The gate looks at `take_profit_price`, and the
first of `take_profits` is sent. -/
namespace TradeGate
open Js Coop

theorem decimalOrNull_nonempty {v : Option Value} {name x : String} (h : x ∈ (decimalOrNull v name).1) :
    x ≠ "" := by
  have hread : ∀ s, x ∈ (if isDecimal s then (some s,[]) else
      (none,[name ++ " must be a decimal string like \"77650.5\" or null"]) : Option String × List String).1 →
      x ≠ "" := by
    intro s hx
    split at hx
    · next hs =>
      cases hx
      rintro rfl
      exact absurd hs (by decide)
    · cases hx
  unfold decimalOrNull at h
  dsimp only at h
  split at h
  · cases h
  · cases h
  · cases h
  · exact hread _ h
  · exact hread _ h
  · cases h

theorem readTakeProfits_nonempty {v : Option Value} {x : String} (h : x ∈ (readTakeProfits v).1) :
    x ≠ "" := by
  unfold readTakeProfits at h
  split at h
  · obtain ⟨y,hy,hx⟩ := List.mem_filterMap.mp h
    obtain ⟨z,-,rfl⟩ := List.mem_map.mp hy
    exact decimalOrNull_nonempty hx
  · cases h

/-- The first target of the list, where the proposal gives a target besides the list. -/
def targetBeside (o : List (String × Value)) : Option String :=
  (decimalOrNull (field o "take_profit_price") "proposal.take_profit_price").1.bind fun _ =>
    (readTakeProfits (field o "take_profits")).1.head?

/-- The first target of a proposal is the gated one, unless another is given besides the list. -/
theorem readProposal_target {o : List (String × Value)} {p : JudgedProposal} (h : p ∈ (readProposal o).1)
    {x : String} (hx : x ∈ p.takeProfits.head?) :
    x ≠ "" ∧ (p.takeProfitPrice=some x ∨ x ∈ targetBeside o) := by
  unfold readProposal at h
  simp only [Option.mem_def,Option.bind_eq_some_iff,Option.map_eq_some_iff] at h
  obtain ⟨d,-,e,-,rfl⟩ := h
  dsimp only at hx ⊢
  unfold targetBeside
  generalize hs : (decimalOrNull (field o "take_profit_price") "proposal.take_profit_price").1=single at hx ⊢
  generalize ht : (readTakeProfits (field o "take_profits")).1=targets at hx ⊢
  cases targets with
  | nil =>
    cases single with
    | none => cases hx
    | some y =>
      cases hx
      exact ⟨decimalOrNull_nonempty hs,.inl rfl⟩
  | cons y ys =>
    cases hx
    refine ⟨readTakeProfits_nonempty (v := field o "take_profits") (ht ▸ List.mem_cons_self),?_⟩
    cases single with
    | none => exact .inl rfl
    | some z => exact .inr rfl

theorem accepted_some {errors errs : List String} {j : Option Judgment} {i : Judgment}
    (h : accepted errors j=(some i,errs)) : j=some i := by
  unfold accepted at h
  split at h
  · exact congrArg Prod.fst h
  · cases h

theorem validateJudgment_proposal {raw : Value} {validRefs allowed errors : List String} {j : Judgment}
    (h : validateJudgment raw validRefs allowed=.ok (some j,errors)) {p : JudgedProposal}
    (hp : p ∈ j.proposal) :
    j.action=.propose ∧
      ∃ o pr, raw=.obj o ∧ field o "proposal"=some (.obj pr) ∧ p ∈ (readProposal pr).1 := by
  unfold validateJudgment at h
  split at h
  · next o =>
    extract_lets action direction headline thesis reasons refs badRefs invalidation invalidationPrice
      targetPrice watch proposal at h
    obtain ⟨c,-,h⟩ := Machine.bind_ok.mp h
    extract_lets errs judgment at h
    clear_value action errs
    have hj : judgment=some j := accepted_some (Except.ok.inj h)
    simp only [judgment] at hj
    split at hj
    · cases hj
      dsimp only at hp ⊢
      obtain ⟨ha,hread⟩ : _ ∧ p ∈ proposal.1 := by
        split at hp
        · next ha => exact ⟨ha,hp⟩
        · cases hp
      simp only [proposal] at hread
      split at hread
      · cases hread
      · cases hread
      · next pr hpr => exact ⟨ha,o,pr,rfl,hpr,hread⟩
      · cases hread
    · cases hj
  · cases h

/-- The first target of the list, where the output gives a target besides the list. -/
def strayTarget : Value → Option String
  | .obj o => match field o "proposal" with
    | some (.obj pr) => targetBeside pr
    | _ => none
  | _ => none

theorem Judgment.passes.proposalGates {j : Judgment} {ctx : GateContext} {limits : ProposalLimits}
    (h : j.passes ctx limits) (ha : j.action=.propose) {p : JudgedProposal} (hp : j.proposal=some p) :
    ∀ g ∈ proposalGates p (.ofText ctx.market.mark) limits, g.passed=true := fun g hg =>
  h g (by simp [evaluateGates,ha,hp,hg])

/-- The target that the gates look at is on the profit side of the reference price. -/
theorem Judgment.passes.target {j : Judgment} {ctx : GateContext} {limits : ProposalLimits}
    (h : j.passes ctx limits) (ha : j.action=.propose) {p : JudgedProposal} (hp : j.proposal=some p)
    {x : String} (hx : p.takeProfitPrice=some x) (hne : x ≠ "") :
    p.direction.profitSide (.ofText x) (p.entryRef (.ofText ctx.market.mark)) := by
  have hg := h.proposalGates ha hp
  simp only [TradeGate.proposalGates,hx,Option.filter_some,List.forall_mem_append] at hg
  simpa [hne] using hg.2

/-- The target of a judgment's thread is gated, unless the output gives another one besides the list. -/
theorem accepted_target {raw : Value} {validRefs allowed errors : List String} {j : Judgment}
    {p : JudgedProposal} {ctx : GateContext} {limits : ProposalLimits}
    (hv : validateJudgment raw validRefs allowed=.ok (some j,errors)) (hp : j.proposal=some p)
    (hg : j.passes ctx limits) (hstray : ∀ x ∈ strayTarget raw,
      p.direction.profitSide (.ofText x) (p.entryRef (.ofText ctx.market.mark)))
    {x : String} (hx : x ∈ p.takeProfits.head?) :
    p.direction.profitSide (.ofText x) (p.entryRef (.ofText ctx.market.mark)) := by
  obtain ⟨ha,o,pr,rfl,hpr,hread⟩ := validateJudgment_proposal hv hp
  obtain ⟨hne,htp|hb⟩ := readProposal_target hread hx
  · exact hg.target ha hp htp hne
  · refine hstray x ?_
    simp only [strayTarget,hpr]
    exact hb

/-- The price and the client order id of the take profit that a request places. -/
def Call.takeProfit? : Call → Option (String × String)
  | .placeTakeProfit _ _ price cid => some (price,cid)
  | .openWithProtection req => req.takeProfit
  | _ => none

section
variable [Host] {p : Power} {s : Runtime} {w : Unit} {q : Call}

/-- A take profit is the first target of a stored thread, under a client order id of the thread. -/
theorem Custody.Plea.takeProfit (h : (planned Unit none).Plea p s w q) {price cid : String}
    (hq : q.takeProfit?=some (price,cid)) :
    ∃ t, OfStored t s ∧ t.takeProfits.head?=some price ∧ ∃ leg n, cid=legCid t.id leg n := by
  have hplaces : cid ∈ q.places := by
    cases q with
    | placeTakeProfit =>
      cases hq
      exact List.mem_cons_self
    | openWithProtection req =>
      have : req.takeProfit=some (price,cid) := hq
      simp [Call.places,this]
    | _ => cases hq
  cases h with
  | serves t ht h hc =>
    refine ⟨t,ht.1,?_,hc cid hplaces⟩
    cases q with
    | placeTakeProfit =>
      cases hq
      exact h.2.2
    | openWithProtection req => exact h.elim
    | _ => cases hq
  | opens t c hp ht h hc =>
    refine ⟨t,ht.1,?_,?_⟩
    · cases q with
      | placeTakeProfit => exact h.elim
      | openWithProtection req => exact h.2.2.2 _ hq
      | _ => cases hq
    · rcases hc cid hplaces with rfl|h
      · exact ⟨.e,ht.2.2⟩
      · exact h
  | asks h =>
    cases q with
    | placeTakeProfit | openWithProtection => exact h.elim
    | _ => cases hq
  | again t c price ht h =>
    subst h
    cases hq
  | clears h =>
    cases q with
    | placeTakeProfit | openWithProtection => exact h.elim
    | _ => cases hq
  | switches _ h =>
    obtain ⟨k,rfl⟩|⟨k,rfl⟩ := h <;> cases hq

variable {c c' c₁ c₂ : Config Runtime Unit Writer Call Answer String Operation}
  {a a' : Action Runtime Writer Call Answer String Operation} {backend : Backend} {workflow : Workflow}
  {now : ℕ}

/-- A thread that an operation of a run stored keeps its plan to the end of the operation's step. -/
theorem Opens.planned {o : Operation} {t : StrategyThread}
    (h : plansGo.Kept (fun o => (planned Unit none).contract o.power) c) (hs : Step gateway c a c')
    (ho : Opens o a t) : OfStored t c'.state := by
  obtain ⟨hop,x,hx,-,-,hpost⟩ := ho
  have hw := ((plansGo_carries anyStep).step h hs trivial).2.writes o hop
  obtain ⟨o',ho',hc,-⟩|⟨hn,-⟩|⟨hn,-⟩ := hs.kind
  · have hgo := hc.goes .refl (fun _ _ _ => .trans) fun y hy => (hw y hy).plansKept
    exact (OfStored.stored (Option.mem_def.mp hpost)).kept (hgo.2 x hx)
  · rw [hn] at hop
    cases hop
  · rw [hn] at hop
    cases hop

theorem plansGo_fresh : plansGo.Kept (fun o => (planned Unit none).contract o.power)
    (⟨Runtime.fresh backend workflow now,(),[]⟩ :
      Config Runtime Unit Writer Call Answer String Operation) := ⟨fun _ _ hu => (nomatch hu),by simp⟩

/-- The thread that an operation opens from a proposal stays one of the proposal. -/
theorem Opens.stays_drawn (h : Run gateway anyStep ⟨Runtime.fresh backend workflow now,(),[]⟩ c)
    (hs : Step gateway c a c') {o : Operation} {t : StrategyThread} (ho : Opens o a t)
    {r : Proposal × List String} (hr : o.proposes=some r) (h' : Run gateway anyStep c' c₁) :
    ∃ u ∈ c₁.state.thread t.id, DrawnFrom u r := by
  have hcar := plansGo_carries anyStep
  have hc := hcar.run plansGo_fresh h
  obtain ⟨u,hu,hp⟩ := (ho.planned hc hs).kept (hcar.goes (hcar.step hc hs trivial).1 h')
  exact ⟨u,hu,(ho.drawn rfl h hs trivial hr).congr hp⟩

/-- The take profit that is sent for a thread is the first target of the plan with which it was
stored. -/
theorem sent_target (h : Run gateway anyStep ⟨Runtime.fresh backend workflow now,(),[]⟩ c)
    (hs : Step gateway c a c') {o : Operation} {t : StrategyThread} (ho : Opens o a t)
    (h' : Run gateway anyStep c' c₁) (hs' : Step gateway c₁ a' c₂) (hd : c₂.state.distinct)
    (hq : q ∈ a'.sent) {price : String} {leg : Leg} {n : ℕ}
    (htp : q.takeProfit?=some (price,legCid t.id leg n)) : t.takeProfits.head?=some price := by
  have hcar := plansGo_carries anyStep
  have hc := hcar.run plansGo_fresh h
  have hc' := (hcar.step hc hs trivial).1
  have ht := (ho.planned hc hs).kept (hcar.goes hc' h')
  have hstep := (hcar.step (hcar.run hc' h') hs' trivial).2
  obtain ⟨u,hu,hut⟩ := ht.kept hstep.goes
  obtain ⟨o',hop',-⟩|⟨-,-,hn,-⟩|⟨-,-,hn,-⟩ := hs'.kind
  · obtain ⟨v,⟨y,hy,hyv⟩,hprice,leg',m,hcid⟩ := (hstep.sent o' hop' q hq).2.takeProfit htp
    have hid : t.id=v.id := Runtime.distinct_of_thread hd (Option.isSome_iff_exists.mpr ⟨u,hu⟩)
      (Option.isSome_iff_exists.mpr ⟨y,hy⟩) (legCid_inj hcid).1
    rw [← hid,hu] at hy
    cases hy
    rw [← hprice,show t.takeProfits=v.takeProfits from congrArg Plan.takeProfits (hut.symm.trans hyv)]
  · rw [hn] at hq
    cases hq
  · rw [hn] at hq
    cases hq

/-- Every take profit sent for the thread of a judgment that passed the gates is on the profit side of
the reference price, unless the output gives another target besides the list. -/
theorem target_sent_as_gated {raw : Value} {validRefs allowed errors : List String} {j : Judgment}
    {p : JudgedProposal} {ctx : GateContext} {limits : ProposalLimits} {symbol : String} {at_ : ℕ}
    (hv : validateJudgment raw validRefs allowed=.ok (some j,errors)) (hp : j.proposal=some p)
    (hg : j.passes ctx limits) (hstray : ∀ x ∈ strayTarget raw,
      p.direction.profitSide (.ofText x) (p.entryRef (.ofText ctx.market.mark)))
    (h : Run gateway anyStep ⟨Runtime.fresh backend workflow now,(),[]⟩ c) (hs : Step gateway c a c')
    {t : StrategyThread} (ho : Opens (judgedScan j p ctx limits symbol at_) a t)
    (h' : Run gateway anyStep c' c₁) (hs' : Step gateway c₁ a' c₂) (hd : c₂.state.distinct)
    (hq : q ∈ a'.sent) {price : String} {leg : Leg} {n : ℕ}
    (htp : q.takeProfit?=some (price,legCid t.id leg n)) :
    p.direction.profitSide (.ofText price) (p.entryRef (.ofText ctx.market.mark)) := by
  have hhead := sent_target h hs ho h' hs' hd hq htp
  rw [(ho.drawn rfl h hs trivial rfl).targets] at hhead
  exact accepted_target hv hp hg hstray hhead

end

section scripts

/-- An output that proposes a long entry with a target at 79000, and lists targets besides. -/
def outputWith (targets : List String) : Value := .obj
  [("action",.str "PROPOSE"),("direction",.str "long"),("confidence",.num (.fin (7/10))),
    ("headline",.str "up"),("thesis",.str "trend"),("reasons",.arr [.str "breakout [E1]"]),
    ("evidence_refs",.arr [.str "E1"]),
    ("proposal",.obj [("direction",.str "long"),("entry",.str "market"),("stop_price",.str "76500.5"),
      ("take_profit_price",.str "79000"),("take_profits",.arr (targets.map .str))])]

def proposalWith (targets : List String) : JudgedProposal where
  direction := .long
  entry := .market
  limitPrice := none
  entryZone := none
  stopPrice := "76500.5"
  takeProfitPrice := some "79000"
  takeProfits := targets
  rationale := ""

def judgmentWith (targets : List String) : Judgment where
  action := .propose
  direction := some .long
  confidence := 7/10
  headline := "up"
  thesis := "trend"
  reasons := ["breakout [E1]"]
  evidenceRefs := ["E1"]
  invalidation := none
  invalidationPrice := none
  targetPrice := none
  watchConditions := []
  proposal := some (proposalWith targets)
  strategyId := none

/-- A flat account and a fresh mark at 77000. -/
def calmContext : GateContext := ⟨false,false,⟨.demo,"1000",[],[]⟩,⟨"77000",0⟩,0,[],none⟩

def someLimits : ProposalLimits := ⟨3,1/2,3⟩

/-- The entry is filled, and the stop is placed. -/
def fillAnswer : (q : Call) → Answer q
  | .account => .ok ⟨.demo,"1000",[],[]⟩
  | .symbolRules _ => .ok ⟨"0.001","0.1","0.001","5"⟩
  | .marketView _ _ => .ok "77000"
  | .openingData _ _ => .ok ("77000",⟨"0.001","0.1","0.001","5"⟩)
  | .placeEntry _ => ⟨.filled,some "77000",none⟩
  | .placeStop _ _ _ _ => ⟨.submitted,none,none⟩
  | q => replies.answer q

/-- Answers that the fills deliver. -/
def filledMoves : ℕ → List (Move Runtime Unit Call Answer Operation)
  | 0 => []
  | n+1 => .serve 0 fillAnswer id::.resume 0::filledMoves n

theorem timely_filledMoves (n : ℕ) : (filledMoves n).Forall Timely := by
  induction n with
  | zero => trivial
  | succ n ih => exact List.forall_cons _ _ _ |>.mpr ⟨trivial,List.forall_cons _ _ _ |>.mpr ⟨trivial,ih⟩⟩

/-- The scan that applies the judgment. -/
def scanWith (targets : List String) : Operation :=
  judgedScan (judgmentWith targets) (proposalWith targets) calmContext someLimits "BTCUSDT" 100000000

/-- The scan, up to the answer after which its thread is stored. -/
def scanMoves (targets : List String) : List (Move Runtime Unit Call Answer Operation) :=
  .start (scanWith targets)::(filledMoves 2++[.serve 0 fillAnswer id])

/-- The thread of the scan is sized and opened, up to the answer after which its target is sent. -/
def protectMoves : List (Move Runtime Unit Call Answer Operation) :=
  filledMoves 5++[.serve 0 fillAnswer id]

theorem timely_scanMoves (targets : List String) : (scanMoves targets).Forall Timely :=
  List.forall_cons _ _ _ |>.mpr ⟨trivial,List.forall_append.mpr ⟨timely_filledMoves 2,trivial⟩⟩

theorem timely_protectMoves : protectMoves.Forall Timely :=
  List.forall_append.mpr ⟨timely_filledMoves 5,trivial⟩

/-- The writes of the action store a new thread under the id, signed as a proposal's. -/
def proposesAt (a : Action Runtime Writer Call Answer String Operation) (id : String) : Bool :=
  a.writes.any fun x => decide (x.label=.propose ∧ x.pre.thread id=none ∧ (x.post.thread id).isSome)

theorem opens_of_proposesAt {a : Action Runtime Writer Call Answer String Operation} {o : Operation}
    {id : String} (hop : a.op=some o) (h : proposesAt a id=true) : ∃ t, t.id=id ∧ Opens o a t := by
  obtain ⟨x,hx,hw⟩ := List.any_eq_true.mp h
  obtain ⟨hl,hn,hs⟩ := of_decide_eq_true hw
  obtain ⟨t,ht⟩ := Option.isSome_iff_exists.mp hs
  have hid := Runtime.id_of_thread ht
  subst hid
  exact ⟨t,rfl,hop,x,hx,hl,hn,ht⟩

end scripts

/-- The target that a thread sends is the one that was gated. -/
theorem gated_target_sent : letI := oneDigest
    ∃ q cid, q ∈ (((configAfter (scanMoves ["79000"])).move gateway (.resume 0)).play gateway
        protectMoves |>.act gateway (.resume 0)).sent ∧ q.takeProfit?=some ("79000",cid) ∧
      (proposalWith ["79000"]).direction.profitSide (.ofText "79000")
        ((proposalWith ["79000"]).entryRef (.ofText calmContext.market.mark)) := by
  let := oneDigest
  have hv : validateJudgment (outputWith ["79000"]) ["E1"] []=.ok (some (judgmentWith ["79000"]),[]) := by
    decide +kernel
  have h : Run gateway anyStep _ (configAfter (scanMoves ["79000"])) :=
    .of_play .refl (gateway_legalPlay (timely_scanMoves _) _)
  have hs : Step gateway (configAfter (scanMoves ["79000"])) _ _ :=
    .of_applies (m := .resume 0) trivial (by decide +kernel)
  obtain ⟨t,ht,ho⟩ : ∃ t : StrategyThread, t.id="thr-0" ∧
      Opens (scanWith ["79000"]) ((configAfter (scanMoves ["79000"])).act gateway (.resume 0)) t :=
    opens_of_proposesAt (by decide +kernel) (by decide +kernel)
  have h' := Run.of_play .refl (gateway_legalPlay timely_protectMoves
    ((configAfter (scanMoves ["79000"])).move gateway (.resume 0)))
  have hs' : Step gateway (((configAfter (scanMoves ["79000"])).move gateway (.resume 0)).play gateway
      protectMoves) _ _ := .of_applies (m := .resume 0) trivial (by decide +kernel)
  have hq : Call.placeTakeProfit "BTCUSDT" .long "79000" (legCid "thr-0" .t 3) ∈ (((configAfter
      (scanMoves ["79000"])).move gateway (.resume 0)).play gateway protectMoves |>.act gateway
      (.resume 0)).sent := by decide +kernel
  exact ⟨_,_,hq,rfl,target_sent_as_gated hv rfl (by decide +kernel) (by decide +kernel) h hs ho h' hs' (by decide +kernel) hq (by rw [ht]; rfl)⟩

/-- The first target of the list is sent below the entry of a long position, where the gates saw the
target besides the list. -/
theorem stray_target_sent : ¬∀ (h : Host) (raw : Value) (validRefs allowed errors : List String)
    (j : Judgment) (p : JudgedProposal) (ctx : GateContext) (limits : ProposalLimits) (symbol : String)
    (at_ : ℕ) (backend : Backend) (workflow : Workflow) (now : ℕ)
    (c c' c₁ c₂ : Config Runtime Unit Writer Call Answer String Operation)
    (a a' : Action Runtime Writer Call Answer String Operation) (t : StrategyThread) (q : Call)
    (price : String) (leg : Leg) (n : ℕ),
      validateJudgment raw validRefs allowed=.ok (some j,errors) → j.proposal=some p →
      j.passes ctx limits → Run (@gateway h) anyStep ⟨Runtime.fresh backend workflow now,(),[]⟩ c →
      Step (@gateway h) c a c' → Opens (judgedScan j p ctx limits symbol at_) a t →
      Run (@gateway h) anyStep c' c₁ → Step (@gateway h) c₁ a' c₂ → @Runtime.distinct h c₂.state →
      q ∈ a'.sent → q.takeProfit?=some (price,@legCid h t.id leg n) →
      p.direction.profitSide (.ofText price) (p.entryRef (.ofText ctx.market.mark)) := by
  intro hall
  let := oneDigest
  have h : Run gateway anyStep _ (configAfter (scanMoves ["70000"])) :=
    .of_play .refl (gateway_legalPlay (timely_scanMoves _) _)
  have hs : Step gateway (configAfter (scanMoves ["70000"])) _ _ :=
    .of_applies (m := .resume 0) trivial (by decide +kernel)
  obtain ⟨t,ht,ho⟩ : ∃ t : StrategyThread, t.id="thr-0" ∧
      Opens (scanWith ["70000"]) ((configAfter (scanMoves ["70000"])).act gateway (.resume 0)) t :=
    opens_of_proposesAt (by decide +kernel) (by decide +kernel)
  have h' := Run.of_play .refl (gateway_legalPlay timely_protectMoves
    ((configAfter (scanMoves ["70000"])).move gateway (.resume 0)))
  have hs' : Step gateway (((configAfter (scanMoves ["70000"])).move gateway (.resume 0)).play gateway
      protectMoves) _ _ := .of_applies (m := .resume 0) trivial (by decide +kernel)
  have hq : Call.placeTakeProfit "BTCUSDT" .long "70000" (legCid "thr-0" .t 3) ∈ (((configAfter
      (scanMoves ["70000"])).move gateway (.resume 0)).play gateway protectMoves |>.act gateway
      (.resume 0)).sent := by decide +kernel
  refine absurd (hall oneDigest (outputWith ["70000"]) ["E1"] [] [] _ _ _ _ _ _ _ _ _ _ _ _ _ _ _ t _ _ .t 3
    (by decide +kernel) rfl (by decide +kernel) h hs ho h' hs' (by decide +kernel) hq (by rw [ht]; rfl)) ?_
  decide +kernel

end TradeGate
