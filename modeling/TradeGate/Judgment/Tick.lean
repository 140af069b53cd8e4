import TradeGate.Judgment.Stop
import TradeGate.Model.MarketView

/-! The decimals of the view against the tick of the symbol. -/
namespace TradeGate
open Js

/-- The text is a price within a tick of the price. -/
def Near (tick : ℚ) (text : String) (x : ℚ) : Prop := ∃ v, Js.Num.ofText text=.fin v ∧ |v-x|<tick

/-- Whatever multiple of the tick the mark is, the view and the demo backend report prices within a tick. -/
def ReportsNear (tick : ℚ) : Prop :=
  ∀ (symbol tf : String) (pi : PremiumIndex) (oi : OpenInterest) (t : Ticker24h) (now : ℕ) (row : DemoBackend.Row)
    (status avg : String) (k : ℕ) (entry fill : ℚ), 0 < k → Js.Num.ofText pi.markPrice=.fin (k*tick) →
    Js.Num.ofText (row.markPrice.getD "0")=.fin (k*tick) → Js.Num.ofText (row.entryPrice.getD "0")=.fin entry →
    Js.Num.ofText avg=.fin fill →
      Near tick (fetchMarketView symbol tf pi oi t now).mark (k*tick) ∧
      Near tick (DemoBackend.markPrice pi.markPrice) (k*tick) ∧
      (∀ view ∈ DemoBackend.positionView row, Near tick view.markPrice (k*tick) ∧ Near tick view.entryPrice entry) ∧
      ∀ price ∈ (DemoBackend.receipt status (some avg)).avgPrice, Near tick price fill

/-- The proposal as it is sized. -/
def JudgedProposal.proposed (p : JudgedProposal) : Proposal := ⟨p.direction,p.entry,p.limitPrice,some p.stopPrice⟩

/-- A proposal that is gated and sized on the view has its stop on the losing side of the exchange's mark, and
loses no more there than the budget and a tick, where a tick of the least quantity is worth the tolerance of
the budget. -/
def KeepsRisk (tick : ℚ) : Prop :=
  ∀ (symbol tf : String) (pi : PremiumIndex) (oi : OpenInterest) (t : Ticker24h) (now : ℕ) (k : ℕ), 0 < k →
    Js.Num.ofText pi.markPrice=.fin (k*tick) →
    ∀ (j : Judgment) (p : JudgedProposal) (ctx : GateContext) (limits : ProposalLimits) (rules : SymbolRules)
      (cfg : GateConfig) (fixed : Option String) (liquidityCap : Js.Num),
      j.action=.propose → j.proposal=some p → ctx.market=(fetchMarketView symbol tf pi oi t now).snapshot →
      j.passes ctx limits →
      (computeSizing p.proposed ctx.account.equity ctx.market.mark rules symbol cfg fixed liquidityCap).ok=true →
        p.direction.lossSide (.ofText p.stopPrice) (.fin (k*tick)) ∧ ∀ e q : ℚ,
          Js.Num.ofText ctx.account.equity=.fin e → Js.Num.ofText (computeSizing p.proposed ctx.account.equity
            ctx.market.mark rules symbol cfg fixed liquidityCap).qty=.fin q →
          ∀ least, Js.Num.ofText rules.minQty=.fin least → 1/1000000000 ≤ least*tick →
          ∃ d, p.proposed.stopDist (.fin (k*tick))=.fin d ∧ q*d ≤ 21/20*e*cfg.riskPct/100+q*tick

section
variable {tick x : ℚ} {text : String}

theorem near_toFixed (h : Js.Num.ofText text=.fin x) (d : ℕ) :
    Near tick ((Js.Num.ofText text).toFixed d) x ↔ |rounded x d-x|<tick := by
  rw [h]
  constructor
  · rintro ⟨v,hv,hnear⟩
    have heq := (Js.Num.ofText_rounded x d).symm.trans hv
    rw [Js.Num.fin.inj heq]
    exact hnear
  · intro hnear
    exact ⟨_,Js.Num.ofText_rounded x d,hnear⟩

theorem trimDecimal_fin (h : Js.Num.ofText text=.fin x) (d : ℕ) : trimDecimal text d=(Js.Num.ofText text).toFixed d := by
  unfold trimDecimal
  rw [h]
  rfl

/-- A tick of at most a twentieth is itself printed a tick too high or too low. -/
theorem rounded_tick (hpos : 0<tick) (hle : tick ≤ 1/20) : tick ≤ |rounded tick 1-tick| := by
  unfold rounded
  dsimp only
  rw [if_neg (not_lt.mpr hpos.le),abs_of_pos hpos,pow_one]
  cases hle.lt_or_eq with
  | inl hlt =>
    have hfloor : ⌊tick*10+1/2⌋=0 := by
      rw [Int.floor_eq_zero_iff]
      constructor <;> linarith
    rw [hfloor]
    norm_num
    exact le_abs_self tick
  | inr heq =>
    subst heq
    norm_num

theorem reportsNear_iff {text : String} (htext : Js.Num.ofText text=.fin tick) (hpos : 0<tick) :
    ReportsNear tick ↔ 1/20<tick := by
  constructor
  · intro h
    by_contra hle
    have hone : Js.Num.ofText text=.fin ((1 : ℕ)*tick) := by
      rw [htext,Nat.cast_one,one_mul]
    obtain ⟨-,-,hview,-⟩ := h "" "" ⟨text,"","",0,0⟩ ⟨"",0⟩ ⟨"","","","",""⟩ 0 ⟨"",some "1",some text,some text,0⟩ "" text 1
      tick tick Nat.one_pos hone hone htext htext
    have hamt : Js.Num.ofText "1"=.fin 1 := by decide +kernel
    have hsome : DemoBackend.positionView ⟨"",some "1",some text,some text,0⟩=some ⟨"",.long,(Js.Num.fin 1).abs.text,
        (Js.Num.ofText text).toFixed 1,(Js.Num.ofText text).toFixed 1,0⟩ := by
      unfold DemoBackend.positionView
      dsimp only [Option.getD_some]
      rw [hamt]
      rfl
    have hnear := (near_toFixed htext 1).mp (hview _ hsome).2
    exact absurd hnear (not_lt.mpr (rounded_tick hpos (not_lt.mp hle)))
  · intro hlt symbol tf pi oi t now row status avg k entry fill hk hmark hmark' hentry hfill
    have hnear : ∀ (x : ℚ) (d : ℕ), 0 < d → |rounded x d-x|<tick := by
      intro x d hd
      refine lt_of_le_of_lt (abs_rounded_sub_le x d) (lt_of_le_of_lt ?_ hlt)
      have hten : (10 : ℚ)^1 ≤ 10^d := pow_le_pow_right₀ (by norm_num) hd
      rw [div_le_div_iff₀ (by positivity) (by norm_num)]
      linarith
    refine ⟨?_,?_,?_,?_⟩
    · change Near tick (trimDecimal pi.markPrice 2) _
      rw [trimDecimal_fin hmark]
      exact (near_toFixed hmark 2).mpr (hnear _ 2 (by decide))
    · exact (near_toFixed hmark 2).mpr (hnear _ 2 (by decide))
    · intro view hview
      unfold DemoBackend.positionView at hview
      dsimp only at hview
      split at hview
      · cases hview
      · cases hview
        exact ⟨(near_toFixed hmark' 1).mpr (hnear _ 1 (by decide)),(near_toFixed hentry 1).mpr (hnear _ 1 (by decide))⟩
    · intro price hprice
      unfold DemoBackend.receipt at hprice
      dsimp only [Option.getD_some] at hprice
      split at hprice
      · cases hprice
        exact (near_toFixed hfill 1).mpr (hnear _ 1 (by decide))
      · cases hprice

/-- The stop of a gated proposal is on the losing side of the mark. -/
theorem Judgment.passes.stop_mark {j : Judgment} {p : JudgedProposal} {ctx : GateContext}
    {limits : ProposalLimits} (h : j.passes ctx limits) (ha : j.action=.propose) (hp : j.proposal=some p) :
    p.direction.lossSide (.ofText p.stopPrice) (.ofText ctx.market.mark) := by
  have hg := h.proposalGates ha hp
  simp only [TradeGate.proposalGates,List.forall_mem_append,List.forall_mem_cons,decide_eq_true_eq] at hg
  have href := hg.1.1
  unfold JudgedProposal.entryRef at href
  cases hl : p.limit with
  | none =>
    rw [hl] at href
    exact href
  | some l =>
    rw [hl] at href
    cases hd : p.direction with
    | long =>
      rw [hd] at href
      exact (Js.Num.lt_min href).2
    | short =>
      rw [hd] at href
      exact (Js.Num.max_lt href).2

/-- On a view that shows the mark itself nothing is lost. -/
theorem keepsRisk_of_hundredths {n : ℕ} (h : tick=n/100) : KeepsRisk tick := by
  intro symbol tf pi oi t now k hk hmark j p ctx limits rules cfg fixed liquidityCap ha hp hctx hpass hok
  have hexact : (k*tick)*10^2=((k*n : ℕ) : ℤ) := by
    rw [h]
    push_cast
    ring
  have hview : Js.Num.ofText ctx.market.mark=.fin (k*tick) := by
    rw [hctx]
    change Js.Num.ofText (trimDecimal pi.markPrice 2)=_
    rw [trimDecimal_fin hmark,hmark]
    exact Js.Num.ofText_toFixed hexact
  refine ⟨hview ▸ hpass.stop_mark ha hp,?_⟩
  intro e q he hq least hleast hworth
  obtain ⟨hcaps,-⟩ := computeSizing_ok_iff.mp hok
  rw [he,hq,hview] at hcaps
  have hover : least ≤ q := by
    have hle := hcaps.least.1
    rw [hleast] at hle
    exact Js.Num.le_of_fin hle
  have htick : 0 ≤ tick := by
    rw [h]
    positivity
  have hqtick : least*tick ≤ q*tick := mul_le_mul_of_nonneg_right hover htick
  have hfin := Js.Num.isFinite_of_not_lt_mul rfl rfl hcaps.least.2 hcaps.sound.2.2.2.1 hcaps.risk
  obtain ⟨d,hd⟩ := Js.Num.isFinite_iff.mp hfin
  have hrisk := hcaps.risk
  rw [hd] at hrisk
  have hrisk' : q*d ≤ e*cfg.riskPct/100*(21/20)+1/1000000000 := not_lt.mp hrisk
  refine ⟨d,hd,?_⟩
  linarith

/-- A proposal to enter at the market with the stop. -/
def atMarket (dir : Direction) (stop : String) : JudgedProposal where
  direction := dir
  entry := .market
  limitPrice := none
  entryZone := none
  stopPrice := stop
  takeProfitPrice := none
  takeProfits := []
  rationale := ""

def proposing (p : JudgedProposal) : Judgment where
  action := .propose
  direction := some p.direction
  confidence := 1
  headline := ""
  thesis := ""
  reasons := []
  evidenceRefs := []
  invalidation := none
  invalidationPrice := none
  targetPrice := none
  watchConditions := []
  proposal := some p
  strategyId := none

/-- A flat account, nothing stopped, and nothing opened today. -/
def flatContext (equity : String) (market : MarketSnapshot) : GateContext :=
  ⟨false,false,⟨.demo,equity,[],[]⟩,market,0,[],none⟩

theorem passes_atMarket {dir : Direction} {stop equity : String} {market : MarketSnapshot} {v s : ℚ}
    (hmark : Js.Num.ofText market.mark=.fin v) (hstop : Js.Num.ofText stop=.fin s) (hv : 0<v)
    (hside : dir.lossSide (.fin s) (.fin v)) (hnear : |v-s| ≤ v) :
    (proposing (atMarket dir stop)).passes (flatContext equity market) ⟨1,0,100⟩ := by
  have hdist : ((((Js.Num.fin v).sub (.fin s)).abs.div (.fin v)).scale 100)=.fin (|v-s|/v*100) := by
    rw [abs_sub_fin,div_fin hv.ne']
    rfl
  have hlo : (Js.Num.fin (0 : ℚ)).le (.fin (|v-s|/v*100)) := Js.Num.le_fin (by positivity)
  have hhi : (Js.Num.fin (|v-s|/v*100)).le (.fin (100 : ℚ)) := by
    have hpart := (div_le_one hv).mpr hnear
    exact Js.Num.le_fin (by linarith)
  have hgates : ∀ g ∈ proposalGates (atMarket dir stop) (.ofText market.mark) ⟨1,0,100⟩, g.passed=true := by
    rw [hmark]
    intro g hg
    unfold proposalGates at hg
    dsimp only [atMarket,JudgedProposal.entryRef,JudgedProposal.limit] at hg
    rw [if_neg (by decide),hstop,hdist] at hg
    simp only [Option.filter_none,Option.map_none,Option.toList_none,List.append_nil,List.mem_cons,List.not_mem_nil,
      or_false] at hg
    cases hg with
    | inl hg =>
      rw [hg]
      exact decide_eq_true hside
    | inr hg =>
      rw [hg]
      exact decide_eq_true ⟨hlo,hhi⟩
  have hpropose : (proposing (atMarket dir stop)).action=.propose := rfl
  have hadd : (proposing (atMarket dir stop)).action ≠ .add := by
    rw [hpropose]
    decide
  unfold Judgment.passes evaluateGates
  dsimp only
  rw [if_pos hpropose,if_neg hadd,List.append_nil]
  simp only [List.forall_mem_append,List.forall_mem_cons]
  refine ⟨⟨?_,?_,?_⟩,⟨⟨?_,?_⟩,hgates⟩,?_⟩
  · simp [flatContext]
  · simp [flatContext]
  · simp [proposing,flatContext]
  · simp [flatContext]
  · simp [flatContext]
  · simp [proposing]
    norm_num

/-- The view of a symbol whose mark is the text. -/
def viewOf (mark : String) : MarketView :=
  fetchMarketView "" "" ⟨mark,"","",0,0⟩ ⟨"",0⟩ ⟨"","","","",""⟩ 0

theorem ofText_viewOf (htext : Js.Num.ofText text=.fin x) : Js.Num.ofText (viewOf text).mark=.fin (rounded x 2) := by
  change Js.Num.ofText (trimDecimal text 2)=_
  rw [trimDecimal_fin htext,htext]
  exact Js.Num.ofText_rounded x 2

/-- What is shown too high or too low is gated and sized with its stop at the mark. -/
theorem sized_viewOf {dir : Direction} (htext : Js.Num.ofText text=.fin x) (hpos : 0<rounded x 2)
    (hnear : |rounded x 2-x| ≤ rounded x 2) (hside : dir.lossSide (.fin x) (.fin (rounded x 2))) :
    ∃ e : ℕ, (proposing (atMarket dir text)).passes (flatContext (toString e) (viewOf text).snapshot) ⟨1,0,100⟩ ∧
      (computeSizing (atMarket dir text).proposed (toString e) (viewOf text).mark ⟨"1","1","1","0"⟩ "" defaultGates
        (some "1")).ok=true := by
  have hview := ofText_viewOf htext
  have hne : rounded x 2 ≠ x := by
    intro heq
    rw [heq] at hside
    cases dir <;> exact lt_irrefl x hside
  have hsizable : (atMarket dir text).Sizable (.ofText (viewOf text).mark) := by
    rw [hview]
    constructor
    · exact hpos
    · change Js.Num.fin _ ≠ Js.Num.ofText text
      rw [htext]
      exact fun heq => hne (Js.Num.fin.inj heq)
    · rfl
    · rfl
    · change (Js.Num.ofText text).isFinite=true
      rw [htext]
      rfl
  have hzero : Js.Num.ofText "0"=.fin 0 := by decide +kernel
  obtain ⟨e,hok⟩ := JudgedProposal.ok_of_sizable hsizable "" "0" (by
    rw [hview,hzero]
    change ¬1*rounded x 2<0
    linarith)
  exact ⟨e,passes_atMarket hview htext hpos hside hnear,hok⟩

/-- A tick that is not whole hundredths is itself shown too high or too low, and a stop at it is on the wrong
side. -/
theorem hundredths_of_keepsRisk (htext : Js.Num.ofText text=.fin tick) (hlt : 1/20<tick) (h : KeepsRisk tick) :
    ∃ n : ℕ, tick=n/100 := by
  by_contra hno
  have hone : Js.Num.ofText text=.fin ((1 : ℕ)*tick) := by
    rw [htext,Nat.cast_one,one_mul]
  have herr := abs_le.mp (abs_rounded_sub_le tick 2)
  have hne : rounded tick 2 ≠ tick := by
    intro heq
    unfold rounded at heq
    dsimp only at heq
    rw [if_neg (by linarith)] at heq
    refine hno ⟨⌊|tick| * 10^2+1/2⌋.toNat,?_⟩
    exact heq.symm.trans (by norm_num)
  have hpos : 0<rounded tick 2 := by linarith
  have hnear : |rounded tick 2-tick| ≤ rounded tick 2 := by
    refine (abs_rounded_sub_le tick 2).trans ?_
    linarith
  have hkept : ∀ dir : Direction, dir.lossSide (.fin tick) (.fin (rounded tick 2)) →
      dir.lossSide (.fin tick) (.fin tick) := by
    intro dir hside
    obtain ⟨e,hpass,hok⟩ := sized_viewOf htext hpos hnear hside
    have hloss := (h "" "" ⟨text,"","",0,0⟩ ⟨"",0⟩ ⟨"","","","",""⟩ 0 1 Nat.one_pos hone (proposing (atMarket dir text))
      (atMarket dir text) (flatContext (toString e) (viewOf text).snapshot) ⟨1,0,100⟩ ⟨"1","1","1","0"⟩ defaultGates
      (some "1") (.inf false) rfl rfl rfl hpass hok).1
    change dir.lossSide (Js.Num.ofText text) _ at hloss
    rwa [htext,Nat.cast_one,one_mul] at hloss
  cases hne.lt_or_gt with
  | inl hlow => exact lt_irrefl tick (hkept .short hlow)
  | inr hhigh => exact lt_irrefl tick (hkept .long hhigh)

/-- The prices that are shown and reported are within a tick, and proposals that are gated and sized on them keep
to the risk at the exchange's mark, exactly where the tick is a whole number of hundredths above a twentieth. -/
theorem view_keeps_tick_iff {text : String} (htext : Js.Num.ofText text=.fin tick) (hpos : 0<tick) :
    ReportsNear tick ∧ KeepsRisk tick ↔ 1/20<tick ∧ ∃ n : ℕ, tick=n/100 := by
  constructor
  · rintro ⟨hnear,hrisk⟩
    have hlt := (reportsNear_iff htext hpos).mp hnear
    exact ⟨hlt,hundredths_of_keepsRisk htext hlt hrisk⟩
  · rintro ⟨hlt,n,hn⟩
    exact ⟨(reportsNear_iff htext hpos).mpr hlt,keepsRisk_of_hundredths hn⟩

end

theorem view_keeps_tick_iff_tenth : ReportsNear (1/10) ∧ KeepsRisk (1/10) :=
  (view_keeps_tick_iff (show Js.Num.ofText "0.10"=.fin (1/10) by decide +kernel) (by norm_num)).mpr ⟨by norm_num,10,by norm_num⟩

/-- A price of which the view and the account show other decimals than the tick's, and a proposal that passes on
the view although the exchange's mark is below its stop. -/
theorem view_above_mark :
    ¬Near (1/10000) (viewOf "1.2351").mark (12351/10000) ∧ ¬Near (1/10000) ((Js.Num.ofText "1.2351").toFixed 1) (12351/10000) ∧
    (proposing (atMarket .long "1.236")).passes (flatContext "10000" (viewOf "1.2351").snapshot) ⟨2,3/10,5⟩ ∧
    (computeSizing (atMarket .long "1.236").proposed "10000" (viewOf "1.2351").mark ⟨"1","0.0001","1","5"⟩ "XRPUSDT" defaultGates
      none).ok=true ∧
    ¬Direction.long.lossSide (.ofText "1.236") (.fin (12351/10000)) := by
  have hmark : Js.Num.ofText "1.2351"=.fin (12351/10000) := by decide +kernel
  refine ⟨?_,?_,by decide +kernel,by decide +kernel,by decide +kernel⟩
  · change ¬Near _ (trimDecimal "1.2351" 2) _
    rw [trimDecimal_fin hmark,near_toFixed hmark]
    decide +kernel
  · rw [near_toFixed hmark]
    decide +kernel

end TradeGate
