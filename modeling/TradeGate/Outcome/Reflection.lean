import Mathlib.Algebra.Order.Group.MinMax
import Mathlib.Tactic.FinCases
import Mathlib.Tactic.NormNum
import TradeGate.Outcome.Coherence

/-! Reflecting every price about a constant turns a long trade into a short one. -/
namespace TradeGate

variable {K : Type} [Field K]

/-- The bar with its prices reflected: the low becomes the high. -/
def Kline.reflect (c : K) (b : Kline K) : Kline K := ⟨c-b.openPrice,c-b.low,c-b.high,c-b.close⟩

namespace Outcomes

def OutcomeInput.reflect (c : K) (inp : OutcomeInput K) : OutcomeInput K :=
  { direction := inp.direction.opposite
    entry := inp.entry
    limitPrice := inp.limitPrice.map (c-·)
    stop := c-inp.stop
    tp := inp.tp.map (c-·)
    bars := inp.bars.map (Kline.reflect c) }

def Note.reflect (c : K) : Note K → Note K
  | noBars => noBars
  | noLimitPrice => noLimitPrice
  | notTouched => notTouched
  | wrongSide stop fill => wrongSide (c-stop) (c-fill)
  | bothTouched => bothTouched
  | gappedStop => gappedStop
  | touchedStop => touchedStop
  | gappedTp => gappedTp
  | touchedTp => touchedTp
  | horizon => horizon

/-- The prices of an outcome are reflected, and the rest stays. -/
def Outcome.reflect (c : K) (o : Outcome K) : Outcome K :=
  { o with
    fillPrice := o.fillPrice.map (c-·)
    exitPrice := o.exitPrice.map (c-·)
    note := o.note.reflect c }

def OpenTrade.reflect (c : K) (t : OpenTrade K) : OpenTrade K :=
  { t with
    direction := t.direction.opposite
    fillPrice := c-t.fillPrice
    stop := c-t.stop
    tp := t.tp.map (c-·) }

def Exit.reflect (c : K) (e : Exit K) : Exit K := ⟨c-e.price,e.status,e.note.reflect c⟩

theorem sgn_opposite (d : Direction) : (sgn d.opposite : K)=-sgn d := by
  cases d <;> simp [sgn,Direction.opposite]

theorem tradeR_reflect (c : K) (t : OpenTrade K) (px : K) :
    tradeR (t.reflect c) (c-px)=tradeR t px := by
  simp only [tradeR,OpenTrade.reflect,sgn_opposite]
  congr 1
  ring

section
variable (c : K) (d : Direction) (b : Kline K)

theorem adverse_reflect : adverse d.opposite (b.reflect c)=c-adverse d b := by
  cases d <;> rfl

theorem favorable_reflect : favorable d.opposite (b.reflect c)=c-favorable d b := by
  cases d <;> rfl

variable [LinearOrder K] [IsStrictOrderedRing K]

theorem hitStop_reflect (x : K) : hitStop d.opposite (c-x) (b.reflect c)=hitStop d x b := by
  cases d <;> simp only [hitStop,Direction.opposite,Kline.reflect,sub_le_sub_iff_left]

theorem hitTp_reflect (x : K) : hitTp d.opposite (c-x) (b.reflect c)=hitTp d x b := by
  cases d <;> simp only [hitTp,Direction.opposite,Kline.reflect,sub_le_sub_iff_left]

theorem gapsStop_reflect (o x : K) : gapsStop d.opposite (c-o) (c-x)=gapsStop d o x := by
  cases d <;> simp only [gapsStop,Direction.opposite,sub_lt_sub_iff_left]

theorem gapsTp_reflect (o x : K) : gapsTp d.opposite (c-o) (c-x)=gapsTp d o x := by
  cases d <;> simp only [gapsTp,Direction.opposite,sub_lt_sub_iff_left]

end

section
variable [LinearOrder K] [IsStrictOrderedRing K] (c : K) (t : OpenTrade K) (b : Kline K)

omit [IsStrictOrderedRing K] in
theorem marked_reflect : (t.reflect c).marked (b.reflect c)=(t.marked b).reflect c := by
  have hadverse : tradeR (t.reflect c) (adverse (t.reflect c).direction (b.reflect c))=
      tradeR t (adverse t.direction b) := by
    rw [show (t.reflect c).direction=t.direction.opposite from rfl,adverse_reflect,tradeR_reflect]
  have hfavorable : tradeR (t.reflect c) (favorable (t.reflect c).direction (b.reflect c))=
      tradeR t (favorable t.direction b) := by
    rw [show (t.reflect c).direction=t.direction.opposite from rfl,favorable_reflect,tradeR_reflect]
  simp only [OpenTrade.marked,hadverse,hfavorable]
  rfl

theorem exit_reflect : (t.reflect c).exit (b.reflect c)=(t.exit b).map (Exit.reflect c) := by
  have hstop : hitStop (t.reflect c).direction (t.reflect c).stop (b.reflect c)=
      hitStop t.direction t.stop b := hitStop_reflect c t.direction b t.stop
  have hgap : gapsStop (t.reflect c).direction (b.reflect c).openPrice (t.reflect c).stop=
      gapsStop t.direction b.openPrice t.stop := gapsStop_reflect c t.direction b.openPrice t.stop
  have htp : ∀ x, hitTp (t.reflect c).direction (c-x) (b.reflect c)=hitTp t.direction x b :=
    hitTp_reflect c t.direction b
  have hgapTp : ∀ x, gapsTp (t.reflect c).direction (b.reflect c).openPrice (c-x)=
      gapsTp t.direction b.openPrice x := gapsTp_reflect c t.direction b.openPrice
  have hany : (t.reflect c).tp.any (fun x => hitTp (t.reflect c).direction x (b.reflect c))=
      t.tp.any fun x => hitTp t.direction x b := by
    rw [show (t.reflect c).tp=t.tp.map (c-·) from rfl]
    cases t.tp <;> simp [htp]
  unfold OpenTrade.exit
  rw [hstop,hgap,hany]
  split
  next =>
    rw [Option.map_some,Option.some_inj,Exit.reflect,Exit.mk.injEq]
    refine ⟨?_,rfl,?_⟩
    · split <;> rfl
    · split
      next => rfl
      next => split <;> rfl
  next =>
    rw [show (t.reflect c).tp=t.tp.map (c-·) from rfl]
    cases t.tp with
    | none => rfl
    | some x =>
      simp only [Option.map_some,Option.bind_some,htp,hgapTp]
      split
      next =>
        rw [Option.map_some,Option.some_inj,Exit.reflect,Exit.mk.injEq]
        refine ⟨?_,rfl,?_⟩
        · split <;> rfl
        · split <;> rfl
      next => rfl

end

section
variable [LinearOrder K] [IsStrictOrderedRing K] (c : K)

theorem walkTrade_reflect (t : OpenTrade K) (i : ℕ) (bars : List (Kline K)) :
    walkTrade (t.reflect c) i (bars.map (Kline.reflect c))=
      ((walkTrade t i bars).1.reflect c,
        (walkTrade t i bars).2.map fun p => (p.1,p.2.reflect c)) := by
  induction bars generalizing t i with
  | nil => rfl
  | cons b bars ih =>
    rw [List.map_cons,walkTrade,walkTrade,stepTrade_eq,stepTrade_eq,marked_reflect,exit_reflect]
    cases t.exit b with
    | none => exact ih (t.marked b) (i+1)
    | some e => rfl

theorem findTouch_reflect (d : Direction) (lim : K) (i : ℕ) (bars : List (Kline K)) :
    findTouch d.opposite (c-lim) i (bars.map (Kline.reflect c))=
      (findTouch d lim i bars).map fun p => (p.1,c-p.2) := by
  induction bars generalizing i with
  | nil => rfl
  | cons b bars ih =>
    simp only [List.map_cons,findTouch,hitStop_reflect]
    split
    next =>
      cases d
      · exact congrArg (fun x => some (i,x)) (max_sub_sub_left c b.openPrice lim)
      · exact congrArg (fun x => some (i,x)) (min_sub_sub_left c b.openPrice lim)
    next => exact ih (i+1)

theorem findFill_reflect (d : Direction) (entry : EntryType) (limitPrice : Option K)
    (bars : List (Kline K)) :
    findFill d.opposite entry (limitPrice.map (c-·)) (bars.map (Kline.reflect c))=
      (findFill d entry limitPrice bars).map fun p => (p.1,c-p.2) := by
  cases bars with
  | nil => rfl
  | cons b bars =>
    cases entry with
    | market => rfl
    | limit =>
      cases limitPrice with
      | none => rfl
      | some lim => exact findTouch_reflect c d lim 0 (b::bars)

omit [IsStrictOrderedRing K] in
theorem openTrade_reflect (d : Direction) (fill stop : K) (tp : Option K) :
    openTrade d.opposite (c-fill) (c-stop) (tp.map (c-·))=
      (openTrade d fill stop tp).map (OpenTrade.reflect c) := by
  have hdist : (sgn d.opposite : K)*(c-fill-(c-stop))=sgn d*(fill-stop) := by
    rw [sgn_opposite]
    ring
  simp only [openTrade,hdist]
  split <;> rfl

/-- Reflecting the input reflects the outcome. -/
theorem simulateOutcome_reflect (inp : OutcomeInput K) :
    simulateOutcome (inp.reflect c)=(simulateOutcome inp).reflect c := by
  simp only [simulateOutcome,OutcomeInput.reflect,List.getLast?_map,findFill_reflect]
  cases inp.bars.getLast? with
  | none => rfl
  | some last =>
    simp only [Option.map_some,Option.map_eq_none_iff]
    by_cases hlim : inp.entry=.limit ∧ inp.limitPrice=none
    · rw [if_pos hlim,if_pos hlim]
      rfl
    · rw [if_neg hlim,if_neg hlim]
      cases findFill inp.direction inp.entry inp.limitPrice inp.bars with
      | none => rfl
      | some p =>
        obtain ⟨bar,price⟩ := p
        simp only [Option.map_some,openTrade_reflect]
        cases openTrade inp.direction price inp.stop inp.tp with
        | none => rfl
        | some t =>
          simp only [Option.map_some,← List.map_drop,walkTrade_reflect]
          obtain ⟨u,x⟩ := walkTrade t bar (inp.bars.drop bar)
          cases x with
          | none =>
            have hr : tradeR (u.reflect c) (last.reflect c).close=tradeR u last.close :=
              tradeR_reflect c u last.close
            simp only [Option.map_none,hr,List.length_map]
            rfl
          | some x =>
            have hr : tradeR (u.reflect c) (x.2.reflect c).price=tradeR u x.2.price :=
              tradeR_reflect c u x.2.price
            simp only [Option.map_some,hr]
            rfl

end

/-- On every sequence of well-formed bars the statistics of a filled trade belong together, and
reflecting all prices while long and short change places gives the same status, bars, R and
excursions. -/
theorem outcome_coherent (inp : OutcomeInput ℚ) (hbars : ∀ b ∈ inp.bars, b.WellFormed) :
    ((simulateOutcome inp).status ≠ .unfilled → (simulateOutcome inp).status ≠ .invalid →
      Coherent inp (simulateOutcome inp)) ∧
    ∀ c, let o := simulateOutcome inp
      let o' := simulateOutcome (inp.reflect c)
      o'.status=o.status ∧ o'.fillBar=o.fillBar ∧ o'.exitBar=o.exitBar ∧ o'.barsHeld=o.barsHeld ∧
        o'.r=o.r ∧ o'.maeR=o.maeR ∧ o'.mfeR=o.mfeR := by
  refine ⟨coherent_of_filled hbars,?_⟩
  intro c
  dsimp only
  rw [simulateOutcome_reflect]
  exact ⟨rfl,rfl,rfl,rfl,rfl,rfl,rfl⟩

/-- A limit filled by the second bar and stopped out on the third. -/
def stoppedOut : OutcomeInput ℚ :=
  ⟨.long,.limit,some 100,95,some 120,[⟨104,106,101,103⟩,⟨103,104,99,100⟩,⟨94,96,90,91⟩]⟩

theorem outcome_coherent_stoppedOut : Coherent stoppedOut (simulateOutcome stoppedOut) := by
  refine (outcome_coherent stoppedOut ?_).1 (by decide +kernel) (by decide +kernel)
  intro b hb
  fin_cases hb <;> constructor <;> norm_num

end Outcomes
end TradeGate
