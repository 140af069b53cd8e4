import Mathlib.Tactic.Linarith
import TradeGate.Entry.Atomic
import TradeGate.Entry.Freeze
import TradeGate.Js.Digits
import TradeGate.Judgment.Sizing
import TradeGate.Judgment.Target

/-! The stop of an entry against the mark that is read before the entry is sent.  The gates look at the
side of the stop; the check before the entry is sent looks at its distance only. -/
namespace TradeGate
open Js Coop Contract

namespace JudgedProposal

variable (p : JudgedProposal)

/-- The stop is on the losing side of the limit price, if there is one, and of the mark. -/
def stopBehind (mark : Js.Num) : Prop :=
  (∀ l ∈ p.limit, p.direction.lossSide (.ofText p.stopPrice) (.ofText l)) ∧
    p.direction.lossSide (.ofText p.stopPrice) mark

/-- The price at which the entry is sized: the mark, or the worse of it and the limit price. -/
def sizingRef (mark : Js.Num) : Js.Num :=
  (p.limit.map Js.Num.ofText).elim mark fun l => if p.direction=.long then l.max mark else l.min mark

/-- The higher of the mark and the limit price. -/
def notionalRef (mark : Js.Num) : Js.Num := (p.limit.map Js.Num.ofText).elim mark fun l => l.max mark

/-- The entry can be sized: the prices are finite, and it is sized at a positive one that is not the
stop. -/
structure Sizable (mark : Js.Num) : Prop where
  positive : (Js.Num.fin 0).lt (p.sizingRef mark)
  apart : p.sizingRef mark ≠ .ofText p.stopPrice
  ref : (p.sizingRef mark).isFinite=true
  notional : (p.notionalRef mark).isFinite=true
  stop : (Js.Num.ofText p.stopPrice).isFinite=true

/-- What the check before the entry is sent looks at. -/
def resent : Proposal :=
  ⟨p.direction,p.entry,if p.entry=.limit then p.limitPrice else none,some p.stopPrice⟩

/-- The lower of the mark and the limit price. -/
def minimumRef (mark : Js.Num) : Js.Num := (p.limit.map Js.Num.ofText).elim mark fun l => l.min mark

end JudgedProposal

namespace JudgedProposal

variable {p : JudgedProposal} {equityText mark symbol qty : String} {rules : SymbolRules} {cfg : GateConfig}

theorem computeSizing_ok :
    (computeSizing p.resent equityText mark rules symbol cfg (some qty)).ok=true ↔
      WithinCaps (.ofText qty) (.ofText equityText) (p.sizingRef (.ofText mark))
        (p.notionalRef (.ofText mark)) (p.minimumRef (.ofText mark))
        ((p.sizingRef (.ofText mark)).sub (.ofText p.stopPrice)).abs rules cfg := by
  have hlim : p.resent.limit=p.limit := by
    simp only [resent,Proposal.limit,JudgedProposal.limit]
    split <;> rfl
  have href : p.resent.sizingRef (.ofText mark)=p.sizingRef (.ofText mark) := by
    rw [Proposal.sizingRef,hlim]
    rfl
  have htop : p.resent.notionalRef (.ofText mark)=p.notionalRef (.ofText mark) := by
    rw [Proposal.notionalRef,hlim]
    rfl
  have hlow : p.resent.minimumRef (.ofText mark)=p.minimumRef (.ofText mark) := by
    rw [Proposal.minimumRef,hlim]
    rfl
  have hdist : p.resent.stopDist (.ofText mark)=((p.sizingRef (.ofText mark)).sub (.ofText p.stopPrice)).abs := by
    rw [Proposal.stopDist,href]
    rfl
  rw [computeSizing_ok_iff,href,htop,hlow,hdist]
  exact and_iff_left ⟨rfl,Js.Num.not_inf_lt _⟩

/-- A quantity within the caps can be sized. -/
theorem sizable_of_withinCaps {n equity mark : Js.Num} (h : WithinCaps n equity (p.sizingRef mark)
    (p.notionalRef mark) (p.minimumRef mark) ((p.sizingRef mark).sub (.ofText p.stopPrice)).abs rules cfg) :
    p.Sizable mark := by
  obtain ⟨⟨-,hn⟩,-,hnotional,⟨hnf,hrisk,hequity,hdist,href⟩,hcap⟩ := h
  have he := Js.Num.isFinite_of_div hrisk
  obtain ⟨u,hu⟩ := Js.Num.isFinite_iff.mp hrisk
  obtain ⟨e,rfl⟩ := Js.Num.isFinite_iff.mp he
  rw [hu] at hcap
  have hd := Js.Num.isFinite_of_not_lt_mul rfl hnf hn hdist hcap
  obtain ⟨hfin,hstop⟩ := Js.Num.isFinite_of_abs_sub hd
  have htop : (Js.Num.fin 0).lt (p.notionalRef mark) := by
    unfold notionalRef
    unfold sizingRef at href
    cases hl : p.limit with
    | none => simpa [hl] using href
    | some l =>
      simp only [hl,Option.map_some,Option.elim_some] at href ⊢
      split at href
      · exact href
      · exact Js.Num.lt_max_of_lt_min href
  refine ⟨href,fun heq => ?_,hfin,Js.Num.isFinite_of_not_lt_mul rfl hnf hn htop hnotional,hstop⟩
  obtain ⟨q,hq⟩ := Js.Num.isFinite_iff.mp hstop
  rw [heq,hq] at hdist
  simp [Js.Num.sub,Js.Num.neg,Js.Num.add,Js.Num.abs,Js.Num.lt] at hdist

/-- The texts of scripted accounts, rules and intents as numbers. -/
theorem scripted_numbers : Js.Num.ofText "1"=.fin 1 ∧ Js.Num.ofText "NaN"=.nan ∧ Js.positive "0.5" ∧
    Js.Num.ofText someWorkflow.dailyLossStopPct=.fin 3 ∧
    min (Js.value "0.5") (Js.value someWorkflow.riskPct)=defaultGates.riskPct := by
  decide +kernel

/-- An entry that can be sized at the mark is within the caps of some account, where the exchange asks for no
more than it is worth. -/
theorem ok_of_sizable (h : p.Sizable (.ofText mark)) (symbol minNotional : String)
    (hmin : ¬((Js.Num.fin 1).mul (p.minimumRef (.ofText mark))).lt (.ofText minNotional)) : ∃ n : ℕ,
    (computeSizing p.resent (toString n) mark ⟨"1","1","1",minNotional⟩ symbol defaultGates (some "1")).ok=true := by
  obtain ⟨href,hne,hfin,htop,hstop⟩ := h
  obtain ⟨r,hr⟩ := Js.Num.isFinite_iff.mp hfin
  obtain ⟨t,ht⟩ := Js.Num.isFinite_iff.mp htop
  obtain ⟨q,hq⟩ := Js.Num.isFinite_iff.mp hstop
  rw [hr] at href hne
  rw [hq] at hne
  have hdist : 0 < |r-q| := abs_pos.mpr (sub_ne_zero.mpr fun he => hne (congrArg Js.Num.fin he))
  obtain ⟨n,hn⟩ : ∃ n : ℕ, |t|+200*|r-q|+1 ≤ n := ⟨_,Nat.le_ceil _⟩
  have htn := le_abs_self t
  have htp := abs_nonneg t
  refine ⟨n,computeSizing_ok.mpr ?_⟩
  have hone : Js.Num.ofText "1"=.fin 1 := scripted_numbers.1
  have hsub : ((Js.Num.fin r).sub (.fin q)).abs=.fin |r-q| := by
    simp [Js.Num.sub,Js.Num.neg,Js.Num.add,Js.Num.abs,sub_eq_add_neg]
  have hrisk : (((Js.Num.fin n).mul (.fin defaultGates.riskPct)).div (.fin 100))=.fin (n*(1/2)/100) := rfl
  rw [hr,ht,hq,hone,Js.Num.ofText_natText,hsub]
  refine ⟨⟨by rw [hone]; decide,by decide⟩,hmin,?_,?_,?_⟩
  · show ¬((n : ℚ)*3*(10001/10000) < 1*t)
    linarith
  · rw [hrisk]
    exact ⟨rfl,rfl,show (0 : ℚ)<n by linarith,hdist,href⟩
  · rw [hrisk]
    show ¬((n : ℚ)*(1/2)/100*(21/20)+1/1000000000 < 1*|r-q|)
    linarith

end JudgedProposal
section
variable {ω : Type} {p : JudgedProposal} {t : StrategyThread} {i : DemoIntent} {fresh : AccountView}
  {s s' : Runtime} {w w' : ω} {tr : List (Event Runtime ω Writer Call Answer)}

theorem DrawnFrom.resent (h : DrawnFrom t (p.order,p.takeProfits)) :
    (⟨t.side,t.entry.type,t.entry.price,t.stopPrice⟩ : Proposal)=p.resent := by
  rw [h.side,h.entry,h.stop]
  rfl

/-- Every read of the market data before an entry gives the mark. -/
def MarksRead (mark : String) (tr : List (Event Runtime ω Writer Call Answer)) : Prop :=
  ∀ symbol timeframe r s w s' w', Event.call (.openingData symbol timeframe) r s w s' w' ∈ tr →
    ∃ rules, r=.ok (mark,rules)

theorem sentNoEntry_of_silent {α : Type} {q : RT α} {x : Except String α}
    (hq : (silent ω).Meets q (fun _ _ _ => True) s w) (h : Exec q s w tr x s' w') : SentNoEntry tr := by
  intro c hc
  obtain ⟨e,he,hec⟩ := List.mem_filterMap.mp hc
  have := (hq.exec h fun e _ => by cases e <;> trivial).1 e he
  cases e with
  | put => cases hec
  | call =>
    cases hec
    exact this

theorem openingRefusal_silent : (silent ω).Meets (openingRefusal t i) (fun _ _ _ => True) s w := by
  simp only [openingRefusal,Meets.request_bind]
  refine ⟨rfl,fun r s₁ w₁ _ => ?_⟩
  cases r with
  | error e => trivial
  | ok fresh =>
    simp only [orThrow,Prog.done_bind,Meets.update_bind,Meets.read_bind]
    refine ⟨trivial,?_⟩
    split
    · trivial
    · refine Meets.bind (M := fun _ _ _ => True) ?_ fun why s₂ w₂ _ => ?_
      · unfold sizingRefusal
        split
        · simp only [Meets.request_bind]
          refine ⟨rfl,fun r _ _ _ => ?_⟩
          cases r with
          | error e => trivial
          | ok m => exact ⟨trivial,trivial⟩
        · trivial
      · cases why with
        | some why => trivial
        | none =>
          simp only [armRefusal,Meets.request_bind]
          refine ⟨rfl,fun lev _ _ _ => ?_⟩
          split
          · trivial
          · simp only [Meets.request_bind]
            refine ⟨rfl,fun mt _ _ _ => ?_⟩
            split <;> trivial

theorem abortOpen_silent {why : String} :
    (silent ω).Meets (abortOpen t i why) (fun _ _ _ => True) s w := ⟨trivial,trivial,trivial⟩

/-- Nothing stood against the quantity, so it passed the check. -/
theorem sizingRefusal_passed (h : Exec (sizingRefusal t i fresh) s w tr (.ok none) s' w')
    (hi : Js.positive i.riskPct) : ∃ mark rules s₁ w₁ cfg,
      Event.call (.openingData t.symbol t.timeframe) (.ok (mark,rules)) s w s₁ w₁ ∈ tr ∧
      (computeSizing ⟨t.side,t.entry.type,t.entry.price,t.stopPrice⟩ fresh.equity mark rules t.symbol
        cfg (some t.qty)).ok=true := by
  unfold sizingRefusal at h
  rw [if_pos hi] at h
  simp only [Prog.request_bind,Exec.await_iff] at h
  obtain ⟨r,s₁,w₁,t₁,rfl,h⟩ := h
  cases r with
  | error e => cases (Exec.done_iff.mp h).2.1
  | ok m =>
    obtain ⟨mark,rules⟩ := m
    simp only [Prog.update_bind,Prog.read_bind,Exec.get_iff,Exec.put_iff] at h
    obtain ⟨t₂,rfl,h⟩ := h
    have hx := Except.ok.inj (Exec.done_iff.mp h).2.1
    split at hx
    · next hok => exact ⟨mark,rules,s₁,w₁,_,List.mem_cons_self,hok⟩
    · cases hx

theorem openingRefusal_passed (h : Exec (openingRefusal t i) s w tr (.ok none) s' w') :
    ∃ fresh s₁ w₁ t₁ s₂ w₂, Exec (sizingRefusal t i fresh) s₁ w₁ t₁ (.ok none) s₂ w₂ ∧
      ∀ e ∈ t₁, e ∈ tr := by
  simp only [openingRefusal,Prog.request_bind,Exec.await_iff] at h
  obtain ⟨r,s₁,w₁,t₁,rfl,h⟩ := h
  cases r with
  | error e => cases (Exec.fail_iff.mp h).2.1
  | ok fresh =>
    simp only [orThrow,Prog.done_bind,Prog.update_bind,Prog.read_bind,Exec.get_iff,Exec.put_iff] at h
    obtain ⟨t₂,rfl,h⟩ := h
    split at h
    · cases (Exec.done_iff.mp h).2.1
    · rcases Exec.bind_iff.mp h with ⟨why,s₃,w₃,t₃,t₄,rfl,h₁,h₂⟩|⟨e,he,-⟩
      · cases why with
        | some why => cases (Exec.done_iff.mp h₂).2.1
        | none => exact ⟨fresh,_,_,t₃,_,_,h₁,fun e he => by simp [he]⟩
      · cases he

variable [Host]

/-- An entry is sent only after its quantity passed the check at the mark that was read. -/
theorem sizable_of_sent {x : Except String Unit} {mark : String}
    (h : Exec (executeOpen t i) s w tr x s' w') (hsent : ¬SentNoEntry tr) (hi : Js.positive i.riskPct)
    (hm : MarksRead mark tr)
    (hd : DrawnFrom ((s.thread t.id).getD t) (p.order,p.takeProfits)) : p.Sizable (.ofText mark) := by
  simp only [executeOpen,storedOr,Prog.read_bind,Prog.get_bind,Prog.pure_eq,Prog.done_bind,
    Exec.get_iff] at h
  generalize (s.thread t.id).getD t=u at hd h
  split at h
  · obtain ⟨rfl,-⟩ := Exec.fail_iff.mp h
    exact absurd (fun _ hr => by cases hr) hsent
  · simp only [updateIntent,saveThread,Prog.update_bind,Prog.get_bind,Prog.put_bind,
      Prog.pure_eq,Prog.done_bind,Exec.get_iff,Exec.put_iff] at h
    obtain ⟨t₁,rfl,t₂,rfl,h⟩ := h
    have hsent₂ : ¬SentNoEntry t₂ := hsent
    rcases Exec.bind_iff.mp h with ⟨a,s₁,w₁,t₃,t₄,rfl,h₁,h₂⟩|⟨e,rfl,h₁⟩
    · have h₃ := sentNoEntry_of_silent openingRefusal_silent h₁
      cases a with
      | some why =>
        have h₄ := sentNoEntry_of_silent abortOpen_silent h₂
        refine absurd (fun q hq => ?_) hsent₂
        rw [requests_append] at hq
        exact (List.mem_append.mp hq).elim (h₃ q) (h₄ q)
      | none =>
        obtain ⟨fresh,s₂,w₂,t₅,s₃,w₃,hsize,hsub⟩ := openingRefusal_passed h₁
        obtain ⟨m,rules,s₄,w₄,cfg,he,hok⟩ := sizingRefusal_passed hsize hi
        obtain ⟨rules',hr⟩ := hm _ _ _ _ _ _ _ (List.mem_cons_of_mem _ (List.mem_cons_of_mem _
          (List.mem_append_left _ (hsub _ he))))
        cases hr
        rw [hd.resent] at hok
        exact JudgedProposal.sizable_of_withinCaps (JudgedProposal.computeSizing_ok.mp hok)
    · exact absurd (sentNoEntry_of_silent openingRefusal_silent h₁) hsent₂

end

/-! A thread of the proposal alone in its store, and an account large enough for it. -/

section
variable {s : Runtime} {tid symbol equity : String}

/-- Nothing blocks the only thread of a store that runs normally. -/
theorem preflightOpen_alone (hrows : ∀ u ∈ s.threads.rows, u.id=tid) (hh : s.halted=false)
    (hw : s.workflow=someWorkflow) (hs : s.symbolStatus symbol=none) (hd : s.dayStartEquity s.backend=none)
    (ha : s.account=some ⟨.demo,equity,[],[]⟩) :
    s.preflightOpen symbol ⟨.demo,equity,[],[]⟩ (some tid)=[] := by
  have hothers : (s.openThreads.filter fun t => some t.id ≠ some tid)=[] :=
    List.filter_eq_nil_iff.mpr fun u hu => by simp [hrows u (Runtime.mem_openThreads hu).1]
  have hcount : ∀ d, s.threadOpensSince d (some tid)=0 := fun d =>
    List.length_eq_zero_iff.mpr (List.filter_eq_nil_iff.mpr fun u hu => by simp [hrows u hu])
  have hloss : ¬s.dailyLossHit := by
    have hstop : (Js.Num.ofText someWorkflow.dailyLossStopPct)=.fin 3 := JudgedProposal.scripted_numbers.2.2.2.1
    unfold Runtime.dailyLossHit Runtime.dailyLossPct
    rw [ha,hw,hd,hstop]
    simp only [Option.map_none,Option.getD_none]
    generalize Js.Num.ofText equity=x
    split_ifs with hb hx
    · decide
    · cases x with
      | nan => exact absurd hx (Js.Num.not_lt_nan _)
      | inf neg => simp [Js.Num.le,Js.Num.lt,Js.Num.sub,Js.Num.add,Js.Num.neg,Js.Num.div,Js.Num.mul]
      | fin q =>
        have hq : q ≠ 0 := fun h => lt_irrefl (0 : ℚ) (h ▸ hx)
        simp [Js.Num.le,Js.Num.lt,Js.Num.sub,Js.Num.add,Js.Num.neg,Js.Num.div,Js.Num.mul,hq]
    · decide
  unfold Runtime.preflightOpen openingBlockers
  rw [hothers,hcount]
  simp [hh,hw,hs,hloss,someWorkflow]

variable [Host] (p : JudgedProposal) (mark : String) (n : ℕ)

/-- A thread of the proposal that waits for its entry, and the intent that opens it. -/
def loneThread : StrategyThread :=
  proposedThread (Runtime.fresh .demo someWorkflow 0) "BTCUSDT" p.order p.takeProfits .agent "1"

def loneState : Runtime := (Runtime.fresh .demo someWorkflow 0).saveThread (loneThread p)

def loneIntent : DemoIntent := ((loneState p).newIntent (loneThread p) .agent
  { kind := .open, direction := p.direction, quantity := "1", entry := p.entry,
    limitPrice := p.limitPrice, stopPrice := some p.stopPrice, takeProfitPrice := p.takeProfits.head?,
    riskPct := "0.5" }).1

/-- The account has the equity, and the market the mark. -/
def richAnswer : (q : Call) → Answer q
  | .account => .ok ⟨.demo,toString n,[],[]⟩
  | .openingData _ _ => .ok (mark,⟨"1","1","1","NaN"⟩)
  | q => replies.answer q

variable {p mark n} {t minted : StrategyThread} {i : DemoIntent} {cid : String}

omit [Host] in
/-- The answers of the market are the script's. -/
theorem marksRead_play {α : Type} (q : RT α) (s : Runtime) :
    MarksRead mark (Exec.play (fun _ => richAnswer mark n) (fun _ => id) () q 0 s).1 := by
  intro symbol timeframe r s₁ w₁ s₂ w₂ he
  obtain ⟨m,rfl,-⟩ := Exec.call_mem_play q 0 s he
  exact ⟨_,rfl⟩

omit [Host] in
/-- Nothing stands against a thread that is within the caps. -/
theorem openingRefusal_clears (hpre : (s.setAccount ⟨.demo,toString n,[],[]⟩).preflightOpen t.symbol
      ⟨.demo,toString n,[],[]⟩ (some t.id)=[]) (hh : s.halted=false) (hi : i.riskPct="0.5")
    (hw : s.workflow=someWorkflow) (hok : (computeSizing ⟨t.side,t.entry.type,t.entry.price,t.stopPrice⟩
      (toString n) mark ⟨"1","1","1","NaN"⟩ t.symbol defaultGates (some t.qty)).ok=true) :
    ∃ (t₁ : List (Event Runtime Unit Writer Call Answer)) (s₁ : Runtime),
      Exec (openingRefusal t i) s () t₁ (.ok none) s₁ () ∧ MarksRead mark t₁ := by
  have hpos : Js.positive i.riskPct := by
    rw [hi]
    exact JudgedProposal.scripted_numbers.2.2.1
  have hrisk : min (Js.value i.riskPct) (Js.value s.workflow.riskPct)=defaultGates.riskPct := by
    rw [hi,hw]
    exact JudgedProposal.scripted_numbers.2.2.2.2
  have hcfg : (⟨min (Js.value i.riskPct) (Js.value s.workflow.riskPct),defaultGates.maxNotionalMultiple⟩ :
      GateConfig)=defaultGates := by rw [hrisk]
  have hplay := Exec.of_play (fun _ => richAnswer mark n) (fun _ => id) () (openingRefusal t i) 0 s
  have hnone : (Exec.play (fun _ => richAnswer mark n) (fun _ => id) () (openingRefusal t i) 0 s).2.1=
      .ok none := by
    simp only [openingRefusal,sizingRefusal,armRefusal,orThrow,Prog.request_bind,Prog.read_bind,
      Prog.update_bind,Prog.done_bind,Prog.await_bind,Prog.get_bind,Prog.put_bind,Prog.pure_eq,Exec.play,
      richAnswer,hpre,if_pos hpos,id,ne_eq,not_true_eq_false,if_false]
    simp only [Runtime.setMarket,Runtime.setAccount,hcfg,hok,if_true]
    simp [Exec.play,richAnswer,Replies.answer,replies,hh]
  rw [hnone] at hplay
  exact ⟨_,_,hplay,marksRead_play _ _⟩

variable (p) in
/-- An entry that can be sized at the mark is sent at it. -/
theorem sent_of_sizable (h : p.Sizable (.ofText mark)) :
    ∃ (tr : List (Event Runtime Unit Writer Call Answer)) (x : Except String Unit) (s' : Runtime),
      Exec (executeOpen (loneThread p) (loneIntent p)) (loneState p) () tr x s' () ∧
        ¬SentNoEntry tr ∧ MarksRead mark tr := by
  have hnan : Js.Num.ofText "NaN"=.nan := JudgedProposal.scripted_numbers.2.1
  obtain ⟨n,hok⟩ := JudgedProposal.ok_of_sizable h "BTCUSDT" "NaN"
    (by rw [hnan]; exact Js.Num.not_lt_nan _)
  have hstored : ((loneState p).thread (loneThread p).id).getD (loneThread p)=loneThread p := by
    rw [loneState,Runtime.thread_saveThread_self]
    rfl
  have hunsent : ¬((loneThread p).status ≠ .pendingEntry ∨ (loneThread p).entryClientOrderId.isSome) := by
    simp [loneThread,proposedThread,newThread]
  simp only [executeOpen,storedOr,Prog.read_bind,Prog.get_bind,Prog.pure_eq,Prog.done_bind,
    Exec.get_iff,hstored]
  rw [if_neg hunsent]
  simp only [updateIntent,saveThread,Prog.update_bind,Prog.get_bind,Prog.put_bind,
      Prog.pure_eq,Prog.done_bind,Exec.get_iff,Exec.put_iff]
  have hrows : ∀ u ∈ ((loneState p).saveThread ((nextLegCid (loneThread p) .e).2.submitting
      (nextLegCid (loneThread p) .e).1 ((loneThread p).version+1) (loneState p).now)).threads.rows,
      u.id=(loneThread p).id := by
    intro u hu
    rcases Runtime.mem_rows_saveThread hu with rfl|⟨hu,-⟩
    · rfl
    · rcases Runtime.mem_rows_saveThread hu with rfl|⟨hu,-⟩
      · rfl
      · cases hu
  obtain ⟨t₁,s₁,h₁,hm₁⟩ := openingRefusal_clears (t := loneThread p)
    (i := { loneIntent p with status := .approved, clientOrderId := some (nextLegCid (loneThread p) .e).1 })
    (s := ((loneState p).saveThread ((nextLegCid (loneThread p) .e).2.submitting
      (nextLegCid (loneThread p) .e).1 ((loneThread p).version+1) (loneState p).now)).saveIntent
      { loneIntent p with status := .approved, clientOrderId := some (nextLegCid (loneThread p) .e).1 })
    (preflightOpen_alone hrows rfl rfl rfl rfl rfl) rfl rfl rfl hok
  have h₂ := Exec.of_play (fun _ => richAnswer mark n) (fun _ => id) () (submitEntry (loneThread p)
    (nextLegCid (loneThread p) .e).2 (nextLegCid (loneThread p) .e).1 { loneIntent p with
      status := .approved, clientOrderId := some (nextLegCid (loneThread p) .e).1 }) 0 s₁
  refine ⟨_,_,_,⟨_,rfl,_,rfl,Exec.bind_ok h₁ h₂⟩,fun hn => submitEntry_sends h₂ fun q hq => hn q ?_,?_⟩
  · simp [hq]
  · intro symbol timeframe r s w s' w' he
    simp only [List.mem_cons,reduceCtorEq,false_or,List.mem_append] at he
    exact he.elim (hm₁ _ _ _ _ _ _ _) (marksRead_play _ _ _ _ _ _ _ _ _)

end

/-- A proposal that passed the gates has its stop on the losing side of its limit price. -/
theorem Judgment.passes.stop_limit {j : Judgment} {p : JudgedProposal} {ctx : GateContext}
    {limits : ProposalLimits} (h : j.passes ctx limits) (ha : j.action=.propose) (hp : j.proposal=some p) :
    ∀ l ∈ p.limit, p.direction.lossSide (.ofText p.stopPrice) (.ofText l) := by
  intro l hl
  have hg := h.proposalGates ha hp
  simp only [TradeGate.proposalGates,List.forall_mem_append,List.forall_mem_cons,decide_eq_true_eq] at hg
  have href := hg.1.1
  rw [Option.mem_def] at hl
  unfold JudgedProposal.entryRef at href
  rw [hl] at href
  cases hd : p.direction with
  | long =>
    rw [hd] at href
    exact (Js.Num.lt_min href).1
  | short =>
    rw [hd] at href
    exact (Js.Num.max_lt href).1

/-- Every entry of a proposal that passed the gates has its stop on the losing side of the limit price
and of the mark that was read before it was sent, exactly when the market has not moved through the
stop, or no quantity can be sized at the mark. -/
theorem entry_stop_behind_iff [Host] {j : Judgment} {p : JudgedProposal} {ctx : GateContext}
    {limits : ProposalLimits} (ha : j.action=.propose) (hp : j.proposal=some p)
    (hg : j.passes ctx limits) (mark : String) :
    (∀ (t : StrategyThread) (i : DemoIntent) (s s' : Runtime)
      (tr : List (Event Runtime Unit Writer Call Answer)) (x : Except String Unit),
      DrawnFrom ((s.thread t.id).getD t) (p.order,p.takeProfits) → Js.positive i.riskPct →
      Exec (executeOpen t i) s () tr x s' () → MarksRead mark tr → ¬SentNoEntry tr →
      p.stopBehind (.ofText mark)) ↔
    (p.direction.lossSide (.ofText p.stopPrice) (.ofText mark) ∨ ¬p.Sizable (.ofText mark)) := by
  constructor
  · intro hall
    by_contra hn
    obtain ⟨hside,hsize⟩ := not_or.mp hn
    obtain ⟨tr,x,s',h,hsent,hm⟩ := sent_of_sizable p (not_not.mp hsize)
    have hd : DrawnFrom (((loneState p).thread (loneThread p).id).getD (loneThread p))
        (p.order,p.takeProfits) := by
      rw [loneState,Runtime.thread_saveThread_self]
      exact ⟨rfl,rfl,rfl,rfl⟩
    have hi : Js.positive (loneIntent p).riskPct := JudgedProposal.scripted_numbers.2.2.1
    exact hside (hall _ _ _ _ _ _ hd hi h hm hsent).2
  · rintro hcond t i s s' tr x hd hi h hm hsent
    refine ⟨hg.stop_limit ha hp,hcond.resolve_right fun hn => hn ?_⟩
    exact sizable_of_sent h hsent hi hm hd

section scripts

/-- The chat proposes the entry, and its thread is sized at 77000. -/
def chatEntryMoves : List (Move Runtime Unit Call Answer Operation) :=
  .start (.openThreadFromProposal "BTCUSDT" (proposalWith ["79000"]).order ["79000"] "77000" .chat true)::
    filledMoves 3

/-- By the time the entry is approved the mark is another one. -/
def movedAnswer (mark : String) : (q : Call) → Answer q
  | .openingData _ _ => .ok (mark,⟨"0.001","0.1","0.001","5"⟩)
  | q => fillAnswer q

def waitingThread : StrategyThread :=
  ((stateAfter chatEntryMoves).thread "thr-0").get (by decide +kernel)

def waitingIntent : DemoIntent :=
  ((stateAfter chatEntryMoves).intent "int-0").get (by decide +kernel)

/-- The execution of the proposed entry at the mark, while nothing else happens. -/
def enteredAt (mark : String) :
    List (Event Runtime Unit Writer Call Answer) × Except String Unit × Runtime :=
  letI := oneDigest
  Exec.play (fun _ => movedAnswer mark) (fun _ => id) () (executeOpen waitingThread waitingIntent) 0
    (stateAfter chatEntryMoves)

theorem marksRead_enteredAt (mark : String) : MarksRead mark (enteredAt mark).1 := by
  intro symbol timeframe r s₁ w₁ s₂ w₂ he
  obtain ⟨m,rfl,-⟩ := Exec.call_mem_play _ _ _ he
  exact ⟨_,rfl⟩

/-- The thread is the proposal's, which passes the gates, and its intent risks something. -/
theorem waiting_drawn : DrawnFrom (((stateAfter chatEntryMoves).thread waitingThread.id).getD
    waitingThread) ((proposalWith ["79000"]).order,(proposalWith ["79000"]).takeProfits) ∧
    (judgmentWith ["79000"]).passes calmContext someLimits ∧ Js.positive waitingIntent.riskPct :=
  ⟨⟨by decide +kernel,by decide +kernel,by decide +kernel,by decide +kernel⟩,by decide +kernel,by decide +kernel⟩

end scripts

/-- The market rose a little before the entry is sent. -/
theorem entry_sent_above_stop : ¬SentNoEntry (enteredAt "77010").1 ∧
    (proposalWith ["79000"]).stopBehind (.ofText "77010") := by
  let := oneDigest
  obtain ⟨hdrawn,hgates,hrisk⟩ := waiting_drawn
  have hsent : ¬SentNoEntry (enteredAt "77010").1 := by decide +kernel
  exact ⟨hsent,(entry_stop_behind_iff rfl rfl hgates "77010").mpr (.inl (by decide +kernel)) _ _ _ _ _ _
    hdrawn hrisk (Exec.of_play _ _ _ _ _ _) (marksRead_enteredAt _) hsent⟩

/-- A long entry is sent although the mark has fallen below its stop. -/
theorem entry_sent_past_stop : ¬∀ (h : Host) (j : Judgment) (p : JudgedProposal) (ctx : GateContext)
    (limits : ProposalLimits), j.action=.propose → j.proposal=some p → j.passes ctx limits →
      ∀ (mark : String) (s : Runtime), @Reachable h s → ∀ t ∈ s.threads.rows, ∀ i ∈ s.intents.rows,
        ∀ (s' : Runtime) (tr : List (Event Runtime Unit Writer Call Answer)) (x : Except String Unit),
          DrawnFrom ((s.thread t.id).getD t) (p.order,p.takeProfits) → Js.positive i.riskPct →
          Exec (@executeOpen h t i) s () tr x s' () → MarksRead mark tr → ¬SentNoEntry tr →
          p.stopBehind (.ofText mark) := by
  intro hall
  let := oneDigest
  have hreach : Reachable (stateAfter chatEntryMoves) :=
    reachable_of_play (List.forall_cons _ _ _ |>.mpr ⟨trivial,timely_filledMoves 3⟩)
  have hp : Exec (executeOpen waitingThread waitingIntent) (stateAfter chatEntryMoves) ()
      (enteredAt "76000").1 _ (enteredAt "76000").2.2 () := Exec.of_play _ _ _ _ _ _
  obtain ⟨hdrawn,hgates,hrisk⟩ := waiting_drawn
  exact absurd (hall oneDigest (judgmentWith ["79000"]) _ calmContext someLimits rfl rfl
    hgates "76000" _ hreach waitingThread (by decide +kernel) waitingIntent
    (by decide +kernel) _ _ _ hdrawn hrisk hp (marksRead_enteredAt _)
    (by decide +kernel)).2 (by decide +kernel)

end TradeGate
