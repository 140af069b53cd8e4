import Mathlib.Tactic.Linarith
import Mathlib.Tactic.Ring
import TradeGate.Model.Intents
import TradeGate.Number.Decimal
import TradeGate.Number.Lots

/-! The quantity of an entry: what an accepted one keeps to, and what more equity changes. -/
namespace TradeGate
open Js

/-- The prices, budgets and rules of an entry as numbers. -/
structure Trade where
  /-- The highest and the lowest of the mark and the limit price. -/
  top : ℚ
  low : ℚ
  /-- How far the stop is. -/
  dist : ℚ
  step : ℚ
  minQty : ℚ
  minNotional : ℚ
  riskPct : ℚ
  multiple : ℚ

namespace Trade

variable (t : Trade) (e : ℚ)

def budget : ℚ := e*t.riskPct/100

def most : ℚ := e*t.multiple

/-- What the budget allows, within the largest notional. -/
def capped : ℚ := if t.most e<t.budget e/t.dist*t.top then t.most e/t.top else t.budget e/t.dist

/-- That is worth too little for the exchange. -/
def Lifted : Prop := 0<t.minNotional ∧ t.capped e*t.low<t.minNotional

instance : Decidable (t.Lifted e) := inferInstanceAs (Decidable (_ ∧ _))

def raised : ℚ := if t.Lifted e then t.minNotional*(51/50)/t.low else t.capped e

def lots : ℤ := Lots.reaching (1/1000000000) t.step t.low t.minNotional (t.raised e)

def quantity : ℚ := t.lots e*t.step

/-- The budget allows the quantity. -/
def WithinBudget (q : ℚ) : Prop := q*t.dist ≤ t.budget e*(21/20)+1/1000000000

/-- The exchange takes the quantity, and its notional is not too large. -/
structure Placeable (q : ℚ) : Prop where
  pos : 0<q
  minimum : t.minNotional ≤ q*t.low
  notional : q*t.top ≤ t.most e*(10001/10000)

/-- The numbers make sense: prices, distances and lots are positive. -/
structure Sane : Prop where
  top : 0<t.top
  dist : 0<t.dist
  step : 0<t.step
  low : 0<t.minNotional → 0<t.low
  minNotional : 0 ≤ t.minNotional
  riskPct : 0<t.riskPct
  multiple : 0 ≤ t.multiple

variable {t e} {e' q : ℚ}

theorem capped_eq (h : t.Sane) : t.capped e=min (t.budget e/t.dist) (t.most e/t.top) := by
  unfold capped
  split
  · next hlt => rw [min_eq_right (by rw [div_le_iff₀ h.top]; exact hlt.le)]
  · next hle => rw [min_eq_left (by rw [le_div_iff₀ h.top]; exact not_lt.mp hle)]

theorem budget_mono (h : t.Sane) (he : e ≤ e') : t.budget e ≤ t.budget e' := by
  have := mul_le_mul_of_nonneg_right he h.riskPct.le
  unfold budget
  linarith

theorem most_mono (h : t.Sane) (he : e ≤ e') : t.most e ≤ t.most e' :=
  mul_le_mul_of_nonneg_right he h.multiple

theorem capped_mono (h : t.Sane) (he : e ≤ e') : t.capped e ≤ t.capped e' := by
  rw [capped_eq h,capped_eq h]
  exact min_le_min (div_le_div_of_nonneg_right (budget_mono h he) h.dist.le)
    (div_le_div_of_nonneg_right (most_mono h he) h.top.le)

theorem capped_nonneg (h : t.Sane) (he : 0 ≤ e) : 0 ≤ t.capped e := by
  have hb : 0 ≤ t.budget e := div_nonneg (mul_nonneg he h.riskPct.le) (by norm_num)
  have hm : 0 ≤ t.most e := mul_nonneg he h.multiple
  rw [capped_eq h]
  exact le_min (div_nonneg hb h.dist.le) (div_nonneg hm h.top.le)

theorem capped_mul_dist_le (h : t.Sane) : t.capped e*t.dist ≤ t.budget e := by
  rw [← le_div_iff₀ h.dist,capped_eq h]
  exact min_le_left _ _

theorem capped_mul_top_le (h : t.Sane) : t.capped e*t.top ≤ t.most e := by
  rw [← le_div_iff₀ h.top,capped_eq h]
  exact min_le_right _ _

/-- Less equity lifts what more equity lifts. -/
theorem Lifted.anti (h : t.Sane) (he : e ≤ e') (hl : t.Lifted e') : t.Lifted e :=
  ⟨hl.1,(mul_le_mul_of_nonneg_right (capped_mono h he) (h.low hl.1).le).trans_lt hl.2⟩

theorem quantity_of_lifted (hl : t.Lifted e) (hl' : t.Lifted e') : t.quantity e=t.quantity e' := by
  unfold quantity lots raised
  rw [if_pos hl,if_pos hl']

theorem raised_of_not_lifted (hl : ¬t.Lifted e) : t.raised e=t.capped e := if_neg hl

/-- The quantity is worth the exchange's minimum. -/
theorem minimum_quantity (h : t.Sane) (hpos : 0<t.minNotional) : t.minNotional ≤ t.quantity e*t.low := by
  have hlow := h.low hpos
  refine Lots.least_le_reaching h.step hlow (by norm_num) hpos ?_
  unfold raised
  split
  · rw [div_mul_cancel₀ _ hlow.ne']
    linarith
  · next hl => exact not_lt.mp fun hlt => hl ⟨hpos,hlt⟩

/-- What is not lifted either takes no more than what reaches the minimum, or stays at what the budget
and the largest notional allow. -/
theorem quantity_of_not_lifted (h : t.Sane) (he : 0 ≤ e) (hl : ¬t.Lifted e) {k : ℤ}
    (hk : t.minNotional ≤ k*t.step*t.low) :
    t.quantity e ≤ k*t.step ∨ t.quantity e*(1-1/1000000000) ≤ t.capped e := by
  have hraised := raised_of_not_lifted hl
  obtain hle|heq := Lots.reaching_le (1/1000000000) (t.raised e) h.step h.low hk
  · exact .inl (mul_le_mul_of_nonneg_right (by exact_mod_cast hle) h.step.le)
  · refine .inr ?_
    unfold quantity lots
    rw [heq,hraised]
    rcases lt_or_ge 0 (Lots.held (1/1000000000) t.step (t.capped e)) with hpos|hneg
    · exact Lots.held_mul_le_of_pos h.step (by norm_num) hpos
    · have hz : (Lots.held (1/1000000000) t.step (t.capped e) : ℚ) ≤ 0 := by exact_mod_cast hneg
      have := mul_nonpos_of_nonpos_of_nonneg hz h.step.le
      linarith [capped_nonneg h he]

theorem quantity_mono (h : t.Sane) (he : e ≤ e') (hl : ¬t.Lifted e) : t.quantity e ≤ t.quantity e' := by
  have hl' : ¬t.Lifted e' := fun hl' => hl (hl'.anti h he)
  have hlots : t.lots e ≤ t.lots e' := by
    unfold lots
    rw [raised_of_not_lifted hl,raised_of_not_lifted hl']
    exact Lots.reaching_mono h.step h.low (capped_mono h he)
  exact mul_le_mul_of_nonneg_right (by exact_mod_cast hlots) h.step.le

theorem quantity_pos (h : t.Sane) (he : e ≤ e') (hq : 0<t.quantity e) : 0<t.quantity e' := by
  by_cases hl : t.Lifted e
  · have hmin := minimum_quantity (e := e') h hl.1
    have hworth : 0*t.low<t.quantity e'*t.low := by
      rw [zero_mul]
      exact hl.1.trans_le hmin
    exact lt_of_mul_lt_mul_right hworth (h.low hl.1).le
  · exact hq.trans_le (quantity_mono h he hl)

/-- A quantity that more equity does not raise keeps the caps, and one that it raises is within them. -/
theorem placeable_mono (h : t.Sane) (he : 0 ≤ e) (hle : e ≤ e') (hp : t.Placeable e (t.quantity e))
    (hb : t.WithinBudget e (t.quantity e)) :
    t.Placeable e' (t.quantity e') ∧ t.WithinBudget e' (t.quantity e') := by
  have hpos := quantity_pos h hle hp.pos
  have hmost := most_mono h hle
  have hbudget := budget_mono h hle
  have hcaps : t.quantity e' ≤ t.quantity e ∨ t.quantity e'*(1-1/1000000000) ≤ t.capped e' := by
    by_cases hl : t.Lifted e'
    · exact .inl (quantity_of_lifted (hl.anti h hle) hl).ge
    · exact quantity_of_not_lifted h (he.trans hle) hl hp.minimum
  have hminimum : t.minNotional ≤ t.quantity e'*t.low := by
    rcases h.minNotional.lt_or_eq with hn|hn
    · exact minimum_quantity h hn
    · have hlow : 0 ≤ t.low := by
        have := hp.minimum
        rw [← hn] at this
        exact nonneg_of_mul_nonneg_right this hp.pos
      rw [← hn]
      exact mul_nonneg hpos.le hlow
  rcases hcaps with hq|hq
  · refine ⟨⟨hpos,hminimum,?_⟩,?_⟩
    · have := mul_le_mul_of_nonneg_right hq h.top.le
      linarith [hp.notional]
    · have := mul_le_mul_of_nonneg_right hq h.dist.le
      unfold WithinBudget at hb ⊢
      linarith
  · have htop := (mul_le_mul_of_nonneg_right hq h.top.le).trans (capped_mul_top_le h)
    have hdist := (mul_le_mul_of_nonneg_right hq h.dist.le).trans (capped_mul_dist_le h)
    have hpt := mul_pos hpos h.top
    have hpd := mul_pos hpos h.dist
    refine ⟨⟨hpos,hminimum,?_⟩,?_⟩
    · linarith
    · unfold WithinBudget
      linarith

/-- The least quantity is missed only where less equity was lifted above it. -/
theorem lifted_of_lt_minQty (h : t.Sane) (hle : e ≤ e') (hq : t.minQty ≤ t.quantity e)
    (hlt : t.quantity e'<t.minQty) : t.Lifted e ∧ ¬t.Lifted e' ∧ t.minNotional<t.minQty*t.low := by
  have hl : t.Lifted e := by
    by_contra hl
    exact absurd hlt (not_lt.mpr (hq.trans (quantity_mono h hle hl)))
  refine ⟨hl,fun hl' => ?_,?_⟩
  · rw [quantity_of_lifted hl hl'] at hq
    exact absurd hlt (not_lt.mpr hq)
  · have hmin := minimum_quantity (e := e') h hl.1
    exact hmin.trans_lt (mul_lt_mul_of_pos_right hlt (h.low hl.1))

/-- The equity at which a quantity is within the budget, to the next hundredth. -/
def needed (t : Trade) (q : ℚ) : ℚ := ⌈q*t.dist*100/t.riskPct*100-1/1000000000⌉/100

/-- From the needed equity on, the quantity is within the budget. -/
theorem withinBudget_of_needed (h : t.Sane) (hr : t.riskPct ≤ 100) (he : 0 ≤ e)
    (hp : t.Placeable e (t.quantity e)) (hb : ¬t.WithinBudget e (t.quantity e))
    (hneed : t.needed (t.quantity e) ≤ e') : t.WithinBudget e' (t.quantity e') := by
  have hceil := Int.le_ceil (t.quantity e*t.dist*100/t.riskPct*100-1/1000000000)
  have hfull : t.quantity e*t.dist*100/t.riskPct*100*t.riskPct=t.quantity e*t.dist*10000 := by
    rw [div_mul_eq_mul_div,div_mul_cancel₀ _ h.riskPct.ne']
    ring
  have hrisk : t.quantity e*t.dist ≤ t.budget e'+1/1000000000 := by
    have hneed' : t.quantity e*t.dist*100/t.riskPct*100-1/1000000000 ≤ e'*100 := by
      unfold needed at hneed
      linarith
    have := mul_le_mul_of_nonneg_right hneed' h.riskPct.le
    rw [sub_mul,hfull] at this
    unfold budget
    linarith
  have hbudget : 0 ≤ t.budget e := div_nonneg (mul_nonneg he h.riskPct.le) (by norm_num)
  have hle : e ≤ e' := by
    by_contra hlt
    have := budget_mono h (not_le.mp hlt).le
    unfold WithinBudget at hb
    linarith
  have hbudget' := budget_mono h hle
  unfold WithinBudget
  by_cases hl : t.Lifted e'
  · rw [← quantity_of_lifted (hl.anti h hle) hl]
    linarith
  · rcases quantity_of_not_lifted h (he.trans hle) hl hp.minimum with hq|hq
    · have hq' : t.quantity e' ≤ t.quantity e := hq
      have := mul_le_mul_of_nonneg_right hq' h.dist.le
      linarith
    · have hdist := (mul_le_mul_of_nonneg_right hq h.dist.le).trans (capped_mul_dist_le h)
      have hpd := mul_pos (quantity_pos h hle hp.pos) h.dist
      linarith

end Trade

/-! The quantity as a text. -/

/-- The step that is read as a positive number with decimals. -/
structure IsStep (step : String) (s : ℚ) : Prop where
  decimal : IsDecimal step
  value : Js.Num.ofText step=.fin s
  pos : 0<s

/-- Whole lots are printed in full. -/
theorem IsStep.print {step : String} {s : ℚ} (h : IsStep step s) (k : ℤ) :
    Js.Num.ofText ((Js.Num.fin (k*s)).toFixed (decimals step))=.fin (k*s) := by
  obtain ⟨n,hn⟩ := h.decimal.read
  rw [h.value] at hn
  obtain rfl := Js.Num.fin.inj hn
  have hten : (10 : ℚ)^decimals step ≠ 0 := by positivity
  refine Js.Num.ofText_toFixed (n := k*n) ?_
  push_cast
  field_simp

theorem ofText_text {x : Js.Num} (h : x.isFinite=false) : Js.Num.ofText x.text=x := by
  cases x with
  | fin q => cases h
  | nan => decide +kernel
  | inf negative => cases negative <;> decide +kernel

section
variable {step : String} {s : ℚ} {raw low minNotional : Js.Num}

theorem floorToStep_fin (h : IsStep step s) (x : ℚ) :
    floorToStep (.fin x) step=(Js.Num.fin (Lots.held (1/1000000000) s x*s)).toFixed (decimals step) := by
  have hpos : (Js.Num.fin 0).lt (.fin s) := h.pos
  unfold floorToStep
  rw [h.value]
  dsimp only
  rw [if_pos hpos]
  simp only [Js.Num.div,if_neg h.pos.ne',Js.Num.add,Js.Num.floor,Js.Num.mul]
  rfl

theorem floorToStep_infinite (h : IsStep step s) (hraw : raw.isFinite=false) :
    floorToStep raw step=raw.text := by
  have hpos : (Js.Num.fin 0).lt (.fin s) := h.pos
  have hs := h.pos
  unfold floorToStep
  rw [h.value]
  dsimp only
  rw [if_pos hpos]
  cases raw with
  | fin q => cases hraw
  | nan => rfl
  | inf negative =>
    simp only [Js.Num.div,Js.Num.add,Js.Num.floor,Js.Num.mul,if_neg h.pos.ne',decide_eq_false hs.not_gt,Bool.xor_false]
    rfl

/-- The quantity in whole lots, with one lot more where it is worth too little. -/
def steppedQuantity (raw low minNotional : Js.Num) (step : String) : String :=
  let floored := floorToStep raw step
  if (Js.Num.fin 0).lt minNotional ∧ ((Js.Num.ofText floored).mul low).lt minNotional then
    let size := match Js.Num.ofText step with
      | .nan => .fin 0
      | size => size
    ((Js.Num.ofText floored).add size).toFixed (decimals step)
  else floored

theorem steppedQuantity_eq (h : IsStep step s) : steppedQuantity raw low minNotional step =
    if (Js.Num.fin 0).lt minNotional ∧ ((Js.Num.ofText (floorToStep raw step)).mul low).lt minNotional then
      ((Js.Num.ofText (floorToStep raw step)).add (.fin s)).toFixed (decimals step)
    else floorToStep raw step := by
  unfold steppedQuantity
  rw [h.value]

theorem steppedQuantity_infinite (h : IsStep step s) (hraw : raw.isFinite=false) :
    Js.Num.ofText (steppedQuantity raw low minNotional step)=raw := by
  have hsame : (raw.add (.fin s)).toFixed (decimals step)=raw.text := by
    cases raw with
    | fin q => cases hraw
    | nan | inf => rfl
  rw [steppedQuantity_eq h,floorToStep_infinite h hraw,ofText_text hraw,hsame,ite_self,ofText_text hraw]

theorem ofText_floorToStep (h : IsStep step s) (x : ℚ) :
    Js.Num.ofText (floorToStep (.fin x) step)=.fin (Lots.held (1/1000000000) s x*s) := by
  rw [floorToStep_fin h,h.print]

/-- One lot more is printed in full, too. -/
theorem IsStep.print_succ (h : IsStep step s) (k : ℤ) :
    Js.Num.ofText (((Js.Num.fin (k*s)).add (.fin s)).toFixed (decimals step))=.fin ((k+1 : ℤ)*s) := by
  have hsum : (Js.Num.fin (k*s)).add (.fin s)=.fin ((k+1 : ℤ)*s) := by
    simp only [Js.Num.add]
    push_cast
    rw [add_mul,one_mul]
  rw [hsum,h.print]

theorem steppedQuantity_fin (h : IsStep step s) (x : ℚ) :
    Js.Num.ofText (steppedQuantity (.fin x) low minNotional step)=.fin
      ((if (Js.Num.fin 0).lt minNotional ∧ ((Js.Num.fin (Lots.held (1/1000000000) s x*s)).mul low).lt minNotional then
        Lots.held (1/1000000000) s x+1 else Lots.held (1/1000000000) s x : ℤ)*s) := by
  rw [steppedQuantity_eq h,ofText_floorToStep h]
  split
  · rw [h.print_succ]
  · rw [ofText_floorToStep h]

/-- Whatever is read as a number is a number of whole lots. -/
theorem steppedQuantity_lots (h : IsStep step s) {q : ℚ}
    (hq : Js.Num.ofText (steppedQuantity raw low minNotional step)=.fin q) : ∃ k : ℤ, q=k*s := by
  cases raw with
  | fin x =>
    rw [steppedQuantity_fin h] at hq
    exact ⟨_,(Js.Num.fin.inj hq).symm⟩
  | nan =>
    rw [steppedQuantity_infinite h rfl] at hq
    cases hq
  | inf negative =>
    rw [steppedQuantity_infinite h rfl] at hq
    cases hq

end

namespace Proposal

variable (p : Proposal) (mark : Js.Num)

/-- The price of a limit entry. -/
def limit : Option String := if p.entry=.limit then p.limitPrice.filter fun x => x ≠ "" else none

/-- The price at which the stop is measured. -/
def sizingRef : Js.Num :=
  (p.limit.map Js.Num.ofText).elim mark fun l => if p.direction=.long then l.max mark else l.min mark

def notionalRef : Js.Num := (p.limit.map Js.Num.ofText).elim mark fun l => l.max mark

def minimumRef : Js.Num := (p.limit.map Js.Num.ofText).elim mark fun l => l.min mark

def stop : Js.Num := .ofText (p.stopPrice.getD "0")

def stopDist : Js.Num := ((p.sizingRef mark).sub p.stop).abs

/-- The quantity before it is rounded. -/
def rawQuantity (equity : Js.Num) (minNotional liquidityCap : Js.Num) (cfg : GateConfig) : Js.Num :=
  let riskUsdt := (equity.mul (.fin cfg.riskPct)).div (.fin 100)
  let maxNotional := equity.mul (.fin cfg.maxNotionalMultiple)
  let byRisk := if (Js.Num.fin 0).lt (p.stopDist mark) then riskUsdt.div (p.stopDist mark) else .fin 0
  let capped := if maxNotional.lt (byRisk.mul (p.notionalRef mark)) then
    maxNotional.div (p.notionalRef mark) else byRisk
  let raised := if (Js.Num.fin 0).lt minNotional ∧ (capped.mul (p.minimumRef mark)).lt minNotional then
    (minNotional.mul (.fin (51/50))).div (p.minimumRef mark) else capped
  if liquidityCap.lt (raised.mul (p.notionalRef mark)) then
    ((Js.Num.fin 0).max liquidityCap).div (p.notionalRef mark) else raised

end Proposal

section
variable {p : Proposal} {equityText mark symbol : String} {rules : SymbolRules} {cfg : GateConfig}
  {fixed : Option String} {liquidityCap : Js.Num}

theorem computeSizing_qty : (computeSizing p equityText mark rules symbol cfg fixed liquidityCap).qty =
    fixed.getD (steppedQuantity (p.rawQuantity (.ofText mark) (.ofText equityText)
      (.ofText rules.minNotional) liquidityCap cfg) (p.minimumRef (.ofText mark))
      (.ofText rules.minNotional) rules.stepSize) := rfl

end

/-- The caps that a given quantity is checked against. -/
structure WithinCaps (n equity ref notionalRef minimumRef stopDist : Js.Num) (rules : SymbolRules)
    (cfg : GateConfig) : Prop where
  least : (Js.Num.ofText rules.minQty).le n ∧ (Js.Num.fin 0).lt n
  minimum : ¬(n.mul minimumRef).lt (.ofText rules.minNotional)
  notional : ¬((equity.mul (.fin cfg.maxNotionalMultiple)).mul (.fin (10001/10000))).lt (n.mul notionalRef)
  sound : n.isFinite ∧ ((equity.mul (.fin cfg.riskPct)).div (.fin 100)).isFinite ∧
    (Js.Num.fin 0).lt equity ∧ (Js.Num.fin 0).lt stopDist ∧ (Js.Num.fin 0).lt ref
  risk : ¬((((equity.mul (.fin cfg.riskPct)).div (.fin 100)).mul (.fin (21/20))).add
    (.fin (1/1000000000))).lt (n.mul stopDist)

section
variable {p : Proposal} {equityText mark symbol : String} {rules : SymbolRules} {cfg : GateConfig}
  {fixed : Option String} {liquidityCap : Js.Num}

theorem and_last {A B C D E F : Prop} : A ∧ B ∧ C ∧ D ∧ E ∧ F ↔ (A ∧ B ∧ C ∧ D ∧ E) ∧ F := by
  simp only [and_assoc]

/-- The checks of a quantity, one after the other. -/
theorem checks_none {A B C D E : Prop} [Decidable A] [Decidable B] [Decidable C] [Decidable D] [Decidable E]
    {a b c d e : String} : ((if ¬A then some a else if B then some b else if C then some c
      else if ¬D then some d else if E then some e else none).isNone=true) ↔ A ∧ ¬B ∧ ¬C ∧ D ∧ ¬E := by
  split_ifs <;> simp [*]

theorem computeSizing_ok_iff : (computeSizing p equityText mark rules symbol cfg fixed liquidityCap).ok=true ↔
    WithinCaps (.ofText (computeSizing p equityText mark rules symbol cfg fixed liquidityCap).qty)
      (.ofText equityText) (p.sizingRef (.ofText mark)) (p.notionalRef (.ofText mark))
      (p.minimumRef (.ofText mark)) (p.stopDist (.ofText mark)) rules cfg ∧
    (Js.Num.fin 0).lt liquidityCap ∧ ¬liquidityCap.lt
      ((Js.Num.ofText (computeSizing p equityText mark rules symbol cfg fixed liquidityCap).qty).mul
        (p.notionalRef (.ofText mark))) := by
  refine Iff.trans checks_none ?_
  constructor
  · rintro ⟨h₁,h₂,h₃,h₄,h₅⟩
    obtain ⟨hsound,hcap⟩ := and_last.mp h₄
    exact ⟨⟨h₁,h₂,h₃,hsound,h₅⟩,hcap⟩
  · rintro ⟨⟨h₁,h₂,h₃,h₄,h₅⟩,hcap⟩
    exact ⟨h₁,h₂,h₃,and_last.mpr ⟨h₄,hcap⟩,h₅⟩

end

/-! An accepted quantity keeps to its bounds wherever the entry fills. -/

namespace Proposal

/-- The entry can fill at the price: at the mark, or between it and the limit price. -/
def FillsAt (p : Proposal) (mark x : ℚ) : Prop :=
  match p.limit with
  | none => x=mark
  | some l => ∃ lim, Js.Num.ofText l=.fin lim ∧ min lim mark ≤ x ∧ x ≤ max lim mark

/-- What a unit loses from a price to the stop. -/
def loss (p : Proposal) (stop x : ℚ) : ℚ := if p.direction=.long then x-stop else stop-x

/-- The stop is on the losing side of the mark and of the limit price. -/
def StopBehind (p : Proposal) (mark stop : ℚ) : Prop :=
  0<p.loss stop mark ∧ ∀ l ∈ p.limit, ∀ lim, Js.Num.ofText l=.fin lim → 0<p.loss stop lim

end Proposal

theorem max_fin (a b : ℚ) : (Js.Num.fin a).max (.fin b)=.fin (max a b) := by
  unfold Js.Num.max
  rw [if_neg (by simp)]
  by_cases h : a<b
  · rw [if_pos (show (Js.Num.fin a).lt (.fin b) from h),max_eq_right h.le]
  · rw [if_neg (show ¬(Js.Num.fin a).lt (.fin b) from h),max_eq_left (not_lt.mp h)]

theorem min_fin (a b : ℚ) : (Js.Num.fin a).min (.fin b)=.fin (min a b) := by
  unfold Js.Num.min
  rw [if_neg (by simp)]
  by_cases h : b<a
  · rw [if_pos (show (Js.Num.fin b).lt (.fin a) from h),min_eq_right h.le]
  · rw [if_neg (show ¬(Js.Num.fin b).lt (.fin a) from h),min_eq_left (not_lt.mp h)]

theorem sub_fin (a b : ℚ) : (Js.Num.fin a).sub (.fin b)=.fin (a-b) := by
  simp only [Js.Num.sub,Js.Num.neg,Js.Num.add,sub_eq_add_neg]

theorem abs_sub_fin (a b : ℚ) : ((Js.Num.fin a).sub (.fin b)).abs=.fin |a-b| := by
  rw [sub_fin]
  rfl

/-- Where the entry can fill, its reference prices are numbers around the price. -/
theorem Proposal.FillsAt.refs {p : Proposal} {mark x : ℚ} (h : p.FillsAt mark x) : ∃ ref top low : ℚ,
    p.sizingRef (.fin mark)=.fin ref ∧ p.notionalRef (.fin mark)=.fin top ∧ p.minimumRef (.fin mark)=.fin low ∧
    low ≤ x ∧ x ≤ top ∧ (p.direction=.long → ref=top) ∧ (p.direction ≠ .long → ref=low) ∧
    (ref=mark ∨ ∃ l ∈ p.limit, Js.Num.ofText l=.fin ref) := by
  unfold FillsAt at h
  unfold sizingRef notionalRef minimumRef
  cases hl : p.limit with
  | none =>
    rw [hl] at h
    obtain rfl := h
    exact ⟨x,x,x,rfl,rfl,rfl,le_rfl,le_rfl,fun _ => rfl,fun _ => rfl,.inl rfl⟩
  | some l =>
    rw [hl] at h
    obtain ⟨lim,hlim,hlo,hhi⟩ := h
    simp only [Option.map_some,Option.elim_some,hlim,max_fin,min_fin]
    have hmax : max lim mark=mark ∨ max lim mark=lim := (max_choice lim mark).symm
    have hmin : min lim mark=mark ∨ min lim mark=lim := (min_choice lim mark).symm
    have hside : ∀ {r : ℚ}, r=mark ∨ r=lim → r=mark ∨ ∃ l' ∈ some l, Js.Num.ofText l'=.fin r := by
      rintro r (hr|rfl)
      · exact .inl hr
      · exact .inr ⟨l,rfl,hlim⟩
    by_cases hd : p.direction=.long
    · exact ⟨max lim mark,_,_,if_pos hd,rfl,rfl,hlo,hhi,fun _ => rfl,fun hn => absurd hd hn,hside hmax⟩
    · exact ⟨min lim mark,_,_,if_neg hd,rfl,rfl,hlo,hhi,fun hn => absurd hn hd,fun _ => rfl,hside hmin⟩

section
variable {p : Proposal} {equityText mark symbol : String} {rules : SymbolRules} {cfg : GateConfig}
  {fixed : Option String} {liquidityCap : Js.Num}

/-- An accepted quantity is large enough for the exchange, and wherever the entry fills, its notional and
its loss at the stop keep to the caps. -/
theorem computeSizing_sound {e price step minQty minNotional : ℚ} (he : Js.Num.ofText equityText=.fin e)
    (hprice : Js.Num.ofText mark=.fin price) (hstep : IsStep rules.stepSize step)
    (hqty : Js.Num.ofText rules.minQty=.fin minQty) (hnotional : Js.Num.ofText rules.minNotional=.fin minNotional)
    (hok : (computeSizing p equityText mark rules symbol cfg fixed liquidityCap).ok=true) :
    ∃ q : ℚ, Js.Num.ofText (computeSizing p equityText mark rules symbol cfg fixed liquidityCap).qty=.fin q ∧
      minQty ≤ q ∧ (fixed=none → ∃ k : ℤ, q=k*step) ∧ ∀ x, p.FillsAt price x →
        minNotional ≤ q*x ∧ q*x ≤ e*cfg.maxNotionalMultiple*(10001/10000) ∧
        (∀ c, liquidityCap=.fin c → q*x ≤ c) ∧
        ∀ stop, p.stop=.fin stop → p.StopBehind price stop →
          q*p.loss stop x ≤ e*cfg.riskPct/100*(21/20)+1/1000000000 := by
  obtain ⟨⟨hleast,hmin,hmax,hsound,hrisk⟩,hcap,hliquid⟩ := computeSizing_ok_iff.mp hok
  obtain ⟨q,hq⟩ := Js.Num.isFinite_iff.mp hsound.1
  rw [hq] at hleast hmin hmax hsound hrisk hliquid
  rw [he] at hmax hsound hrisk
  rw [hprice] at hmin hmax hsound hrisk hliquid
  rw [hqty] at hleast
  rw [hnotional] at hmin
  have hpos : 0<q := hleast.2
  refine ⟨q,hq,?_,?_,?_⟩
  · rcases hleast.1 with h|⟨h,-⟩
    · exact le_of_lt h
    · exact (Js.Num.fin.inj h).le
  · rintro rfl
    rw [computeSizing_qty] at hq
    exact steppedQuantity_lots hstep hq
  · intro x hx
    obtain ⟨ref,top,low,href,htop,hlow,hlx,hxt,hlong,hshort,hends⟩ := hx.refs
    rw [htop] at hmax hliquid
    rw [hlow] at hmin
    have hmin' : minNotional ≤ q*low := not_lt.mp hmin
    have hmax' : q*top ≤ e*cfg.maxNotionalMultiple*(10001/10000) := not_lt.mp hmax
    have hlx' := mul_le_mul_of_nonneg_left hlx hpos.le
    have hxt' := mul_le_mul_of_nonneg_left hxt hpos.le
    refine ⟨hmin'.trans hlx',hxt'.trans hmax',fun c hc => ?_,fun stop hstop hbehind => ?_⟩
    · rw [hc] at hliquid
      have : q*top ≤ c := not_lt.mp hliquid
      exact hxt'.trans this
    · have hdist : p.stopDist (.fin price)=.fin |ref-stop| := by
        rw [Proposal.stopDist,href,hstop,abs_sub_fin]
      have hbudget : ((Js.Num.fin e).mul (.fin cfg.riskPct)).div (.fin 100)=.fin (e*cfg.riskPct/100) := rfl
      rw [hdist,hbudget] at hrisk
      have hrisk' : q*|ref-stop| ≤ e*cfg.riskPct/100*(21/20)+1/1000000000 := not_lt.mp hrisk
      have href' : 0<p.loss stop ref := by
        rcases hends with rfl|⟨l,hl,hlim⟩
        · exact hbehind.1
        · exact hbehind.2 l hl ref hlim
      have hloss : p.loss stop x ≤ |ref-stop| := by
        unfold Proposal.loss at href' ⊢
        by_cases hd : p.direction=.long
        · rw [if_pos hd] at href' ⊢
          rw [abs_of_pos href',hlong hd]
          linarith
        · rw [if_neg hd] at href' ⊢
          rw [abs_sub_comm,abs_of_pos href',hshort hd]
          linarith
      exact (mul_le_mul_of_nonneg_left hloss hpos.le).trans hrisk'

end

/-! More equity. -/

/-- A price at which a positive quantity is worth at most a finite amount is not infinite. -/
theorem ne_inf_of_worth_le {q b : ℚ} {x : Js.Num} (hq : 0<q) (h : ¬(Js.Num.fin b).lt ((Js.Num.fin q).mul x)) :
    x ≠ .inf false := by
  rintro rfl
  simp [Js.Num.mul,hq.ne',Js.Num.lt,hq.le] at h

theorem ne_neg_inf_of_le_worth {q b : ℚ} {x : Js.Num} (hq : 0<q) (h : ¬((Js.Num.fin q).mul x).lt (.fin b)) :
    x ≠ .inf true := by
  rintro rfl
  simp [Js.Num.mul,hq.ne',Js.Num.lt,hq.le] at h

/-- The reference prices are numbers, and the stop is apart from them. -/
structure Proposal.Priced (p : Proposal) (price ref top low dist : ℚ) : Prop where
  sized : p.sizingRef (.fin price)=.fin ref
  highest : p.notionalRef (.fin price)=.fin top
  lowest : p.minimumRef (.fin price)=.fin low
  distance : p.stopDist (.fin price)=.fin dist
  pos : 0<ref
  le : ref ≤ top
  apart : 0<dist

section
variable {p : Proposal} {equityText mark symbol : String} {rules : SymbolRules} {cfg : GateConfig}
  {e price q a b : ℚ}

/-- A quantity that passes the checks of the notional, at a stop that can be measured, has prices. -/
theorem Proposal.priced_of_checked (hq : 0<q) (hlow : ¬((Js.Num.fin q).mul (p.minimumRef (.fin price))).lt (.fin a))
    (htop : ¬(Js.Num.fin b).lt ((Js.Num.fin q).mul (p.notionalRef (.fin price))))
    (hstop : p.stop.isFinite=true) (hapart : (Js.Num.fin 0).lt (p.stopDist (.fin price)))
    (hpos : (Js.Num.fin 0).lt (p.sizingRef (.fin price))) : ∃ ref top low dist, p.Priced price ref top low dist := by
  obtain ⟨stop,hs⟩ := Js.Num.isFinite_iff.mp hstop
  have hrefs : ∃ ref top low : ℚ, p.sizingRef (.fin price)=.fin ref ∧ p.notionalRef (.fin price)=.fin top ∧
      p.minimumRef (.fin price)=.fin low ∧ ref ≤ top := by
    unfold sizingRef at hpos ⊢
    have htop' := ne_inf_of_worth_le hq htop
    have hlow' := ne_neg_inf_of_le_worth hq hlow
    unfold notionalRef at htop' ⊢
    unfold minimumRef at hlow' ⊢
    cases hl : p.limit with
    | none => exact ⟨price,price,price,rfl,rfl,rfl,le_rfl⟩
    | some l =>
      rw [hl] at hpos htop' hlow'
      simp only [Option.map_some,Option.elim_some] at hpos htop' hlow' ⊢
      cases hn : Js.Num.ofText l with
      | nan =>
        rw [hn] at hpos
        split at hpos <;> exact absurd hpos id
      | inf negative =>
        rw [hn] at htop' hlow'
        cases negative
        · exact absurd rfl htop'
        · exact absurd rfl hlow'
      | fin lim =>
        simp only [max_fin,min_fin]
        by_cases hdir : p.direction=.long
        · exact ⟨_,_,_,if_pos hdir,rfl,rfl,le_rfl⟩
        · exact ⟨_,_,_,if_neg hdir,rfl,rfl,min_le_max⟩
  obtain ⟨ref,top,low,hr,ht,hlo,hle⟩ := hrefs
  have hd : p.stopDist (.fin price)=.fin |ref-stop| := by
    rw [stopDist,hr,hs,abs_sub_fin]
  rw [hr] at hpos
  rw [hd] at hapart
  exact ⟨ref,top,low,_,hr,ht,hlo,hd,hpos,hle,hapart⟩

/-- The entry as numbers. -/
def trade (top low dist step minQty minNotional : ℚ) (cfg : GateConfig) : Trade :=
  ⟨top,low,dist,step,minQty,minNotional,cfg.riskPct,cfg.maxNotionalMultiple⟩

end

section
variable {p : Proposal} {equityText mark symbol : String} {rules : SymbolRules} {cfg : GateConfig}
  {e price ref top low dist step minQty minNotional : ℚ}

theorem div_fin {a b : ℚ} (hb : b ≠ 0) : (Js.Num.fin a).div (.fin b)=.fin (a/b) := if_neg hb

theorem rawQuantity_fin (hp : p.Priced price ref top low dist)
    (hs : (trade top low dist step minQty minNotional cfg).Sane) :
    p.rawQuantity (.fin price) (.fin e) (.fin minNotional) (.inf false) cfg =
      .fin ((trade top low dist step minQty minNotional cfg).raised e) := by
  generalize ht : trade top low dist step minQty minNotional cfg=t at hs ⊢
  have htop : t.top=top := by rw [← ht]; rfl
  have hlow : t.low=low := by rw [← ht]; rfl
  have hdist : t.dist=dist := by rw [← ht]; rfl
  have hmin : t.minNotional=minNotional := by rw [← ht]; rfl
  have hbudget : ((Js.Num.fin e).mul (.fin cfg.riskPct)).div (.fin 100)=.fin (t.budget e) := by
    rw [← ht]
    exact div_fin (by norm_num)
  have hmost : (Js.Num.fin e).mul (.fin cfg.maxNotionalMultiple)=.fin (t.most e) := by
    rw [← ht]
    rfl
  have hby : (if (Js.Num.fin 0).lt (.fin dist) then (Js.Num.fin (t.budget e)).div (.fin dist) else .fin 0) =
      .fin (t.budget e/t.dist) := by
    rw [if_pos (show (Js.Num.fin 0).lt (.fin dist) from hp.apart),div_fin hp.apart.ne',hdist]
  have hcapped : (if (Js.Num.fin (t.most e)).lt ((Js.Num.fin (t.budget e/t.dist)).mul (.fin top)) then
      (Js.Num.fin (t.most e)).div (.fin top) else .fin (t.budget e/t.dist))=.fin (t.capped e) := by
    unfold Trade.capped
    rw [← htop]
    by_cases h : t.most e<t.budget e/t.dist*t.top
    · rw [if_pos h,← div_fin hs.top.ne']
      exact if_pos h
    · rw [if_neg h]
      exact if_neg h
  have hraised : (if (Js.Num.fin 0).lt (.fin minNotional) ∧
      ((Js.Num.fin (t.capped e)).mul (.fin low)).lt (.fin minNotional) then
      ((Js.Num.fin minNotional).mul (.fin (51/50))).div (.fin low) else .fin (t.capped e)) =
        .fin (t.raised e) := by
    unfold Trade.raised
    rw [← hlow,← hmin]
    by_cases h : t.Lifted e
    · rw [if_pos h,← div_fin (hs.low h.1).ne']
      exact if_pos h
    · rw [if_neg h]
      exact if_neg h
  unfold Proposal.rawQuantity
  simp only [hp.highest,hp.lowest,hp.distance,hbudget,hmost,hby,hcapped,hraised]
  exact if_neg (Js.Num.not_inf_lt _)

/-- The quantity of the text. -/
theorem computeSizing_qty_fin (he : Js.Num.ofText equityText=.fin e) (hprice : Js.Num.ofText mark=.fin price)
    (hstep : IsStep rules.stepSize step) (hnotional : Js.Num.ofText rules.minNotional=.fin minNotional)
    (hp : p.Priced price ref top low dist) (hs : (trade top low dist step minQty minNotional cfg).Sane) :
    Js.Num.ofText (computeSizing p equityText mark rules symbol cfg none).qty =
      .fin ((trade top low dist step minQty minNotional cfg).quantity e) := by
  rw [computeSizing_qty,he,hprice,hnotional,hp.lowest,rawQuantity_fin hp hs,Option.getD_none,
    steppedQuantity_fin hstep]
  rfl

/-- What is accepted, as numbers. -/
theorem computeSizing_ok_fin (he : Js.Num.ofText equityText=.fin e) (hprice : Js.Num.ofText mark=.fin price)
    (hstep : IsStep rules.stepSize step) (hqty : Js.Num.ofText rules.minQty=.fin minQty)
    (hnotional : Js.Num.ofText rules.minNotional=.fin minNotional) (hp : p.Priced price ref top low dist)
    (hs : (trade top low dist step minQty minNotional cfg).Sane) (hpos : 0<e) :
    (computeSizing p equityText mark rules symbol cfg none).ok=true ↔
      minQty ≤ (trade top low dist step minQty minNotional cfg).quantity e ∧
      (trade top low dist step minQty minNotional cfg).Placeable e
        ((trade top low dist step minQty minNotional cfg).quantity e) ∧
      (trade top low dist step minQty minNotional cfg).WithinBudget e
        ((trade top low dist step minQty minNotional cfg).quantity e) := by
  have hbudget : ((Js.Num.fin e).mul (.fin cfg.riskPct)).div (.fin 100) =
      .fin ((trade top low dist step minQty minNotional cfg).budget e) := div_fin (by norm_num)
  rw [computeSizing_ok_iff,computeSizing_qty_fin he hprice hstep hnotional hp hs,he,hprice,hp.sized,
    hp.highest,hp.lowest,hp.distance]
  constructor
  · rintro ⟨⟨hleast,hmin,hmax,-,hrisk⟩,-⟩
    rw [hqty] at hleast
    rw [hnotional] at hmin
    rw [hbudget] at hrisk
    refine ⟨?_,⟨hleast.2,not_lt.mp hmin,not_lt.mp hmax⟩,not_lt.mp hrisk⟩
    rcases hleast.1 with h|⟨h,-⟩
    · exact le_of_lt h
    · exact (Js.Num.fin.inj h).le
  · rintro ⟨hleast,hplace,hwithin⟩
    refine ⟨⟨⟨?_,hplace.pos⟩,?_,not_lt.mpr hplace.notional,⟨rfl,?_,hpos,hp.apart,hp.pos⟩,?_⟩,rfl,
      Js.Num.not_inf_lt _⟩
    · rw [hqty]
      rcases lt_or_eq_of_le hleast with h|h
      · exact .inl h
      · exact .inr ⟨congrArg Js.Num.fin h,by simp⟩
    · rw [hnotional]
      exact not_lt.mpr hplace.minimum
    · rw [hbudget]
      rfl
    · rw [hbudget]
      exact not_lt.mpr hwithin

theorem sane_of_checked {q : ℚ} (hp : p.Priced price ref top low dist) (hstep : 0<step) (hq : 0<q)
    (he : 0<e) (hmin : minNotional ≤ q*low) (hmax : q*top ≤ e*cfg.maxNotionalMultiple*(10001/10000))
    (hn : 0 ≤ minNotional) (hr : 0<cfg.riskPct) : (trade top low dist step minQty minNotional cfg).Sane where
  top := hp.pos.trans_le hp.le
  dist := hp.apart
  step := hstep
  low hpos := by
    have hworth : q*0<q*low := by
      rw [mul_zero]
      exact lt_of_lt_of_le hpos hmin
    exact lt_of_mul_lt_mul_left hworth hq.le
  minNotional := hn
  riskPct := hr
  multiple := by
    have hworth := mul_pos hq (hp.pos.trans_le hp.le)
    have hpos : e*0<e*cfg.maxNotionalMultiple := by
      rw [mul_zero]
      linarith
    exact (lt_of_mul_lt_mul_left hpos he.le).le

end

/-- The text of a refusal that names the equity that the entry needs. -/
def needText (actualRisk riskUsdt neededEquity : Js.Num) (cfg : GateConfig) (symbol : String) : String :=
  "最小下单量风险 " ++ actualRisk.toFixed 2 ++ " U > 预算 " ++ riskUsdt.toFixed 2 ++ " U;要 " ++
    neededEquity.text ++ " U 权益才能按 " ++ text cfg.riskPct ++ "% 做 " ++ symbol ++ "(容差 5%,拒单)"

section
variable (p : Proposal) (equityText mark : String) (rules : SymbolRules) (symbol : String) (cfg : GateConfig)

/-- The quantity as a number. -/
def sizedQty : Js.Num := .ofText (computeSizing p equityText mark rules symbol cfg none).qty

def riskBudget : Js.Num := ((Js.Num.ofText equityText).mul (.fin cfg.riskPct)).div (.fin 100)

/-- What the quantity loses at the stop. -/
def riskOf : Js.Num := (sizedQty p equityText mark rules symbol cfg).mul (p.stopDist (.ofText mark))

/-- The quantity risks no more than the budget, with its tolerance. -/
def Affordable : Prop := ¬(((riskBudget equityText cfg).mul (.fin (21/20))).add (.fin (1/1000000000))).lt
  (riskOf p equityText mark rules symbol cfg)

/-- A quantity passes the checks before that of its risk. -/
structure Checked (n : Js.Num) : Prop where
  least : (Js.Num.ofText rules.minQty).le n ∧ (Js.Num.fin 0).lt n
  minimum : ¬(n.mul (p.minimumRef (.ofText mark))).lt (.ofText rules.minNotional)
  notional : ¬(((Js.Num.ofText equityText).mul (.fin cfg.maxNotionalMultiple)).mul (.fin (10001/10000))).lt
    (n.mul (p.notionalRef (.ofText mark)))
  sound : n.isFinite ∧ (riskBudget equityText cfg).isFinite ∧ (Js.Num.fin 0).lt (.ofText equityText) ∧
    (Js.Num.fin 0).lt (p.stopDist (.ofText mark)) ∧ (Js.Num.fin 0).lt (p.sizingRef (.ofText mark))

/-- The entry is refused, and for its risk only. -/
def RefusedForRisk : Prop :=
  Checked p equityText mark rules cfg (sizedQty p equityText mark rules symbol cfg) ∧
    ¬Affordable p equityText mark rules symbol cfg

/-- The equity at which the risk is within the budget, to the next hundredth. -/
def neededEquity : Js.Num := (((((riskOf p equityText mark rules symbol cfg).mul (.fin 100)).div
  (.fin cfg.riskPct)).mul (.fin 100)).sub (.fin (1/1000000000))).ceil.div (.fin 100)

end

/-- The text of the last check is the last text of the note. -/
theorem note_last {A B C D E : Prop} [Decidable A] [Decidable B] [Decidable C] [Decidable D] [Decidable E]
    {a b c d e otherwise : String} {before : List String} (hA : A) (hB : ¬B) (hC : ¬C) (hD : D) (hE : E) :
    (let all := before ++ (if ¬A then some a else if B then some b else if C then some c
      else if ¬D then some d else if E then some e else none).toList
    if all=[] then otherwise else ";".intercalate all)=";".intercalate (before ++ [e]) := by
  rw [if_neg (not_not.mpr hA),if_neg hB,if_neg hC,if_neg (not_not.mpr hD),if_pos hE]
  exact if_neg (by simp)

section
variable {p : Proposal} {equityText equityText' mark symbol : String} {rules : SymbolRules} {cfg : GateConfig}
  {e e' price stop step minQty minNotional : ℚ}

/-- The note of an entry that is refused for its risk names the equity it needs. -/
theorem RefusedForRisk.note (h : RefusedForRisk p equityText mark rules symbol cfg) :
    ∃ before, (computeSizing p equityText mark rules symbol cfg none).note=";".intercalate (before ++
      [needText (riskOf p equityText mark rules symbol cfg) (riskBudget equityText cfg)
        (neededEquity p equityText mark rules symbol cfg) cfg symbol]) := by
  obtain ⟨hchecked,hrisk⟩ := h
  exact ⟨_,note_last hchecked.least hchecked.minimum hchecked.notional
    (and_last.mpr ⟨hchecked.sound,rfl,Js.Num.not_inf_lt _⟩) (not_not.mp hrisk)⟩

/-- An entry that passes the checks before that of its risk. -/
theorem priced_of_checks (minQty : ℚ) {n : Js.Num} (hstop : p.stop=.fin stop) (hstep : 0<step) (hn : 0 ≤ minNotional)
    (hr : 0<cfg.riskPct) (hpos : (Js.Num.fin 0).lt n)
    (hmin : ¬(n.mul (p.minimumRef (.fin price))).lt (.fin minNotional))
    (hmax : ¬(((Js.Num.fin e).mul (.fin cfg.maxNotionalMultiple)).mul (.fin (10001/10000))).lt
      (n.mul (p.notionalRef (.fin price))))
    (hfin : n.isFinite=true) (he : (Js.Num.fin 0).lt (.fin e)) (hapart : (Js.Num.fin 0).lt (p.stopDist (.fin price)))
    (href : (Js.Num.fin 0).lt (p.sizingRef (.fin price))) : ∃ ref top low dist, p.Priced price ref top low dist ∧
      (trade top low dist step minQty minNotional cfg).Sane := by
  obtain ⟨q,rfl⟩ := Js.Num.isFinite_iff.mp hfin
  obtain ⟨ref,top,low,dist,hp⟩ := Proposal.priced_of_checked hpos hmin hmax (by rw [hstop]; rfl) hapart href
  rw [hp.lowest] at hmin
  rw [hp.highest] at hmax
  exact ⟨ref,top,low,dist,hp,sane_of_checked hp hstep hpos he (not_lt.mp hmin) (not_lt.mp hmax) hn hr⟩

section
variable {ref top low dist : ℚ}

theorem riskBudget_fin (top low dist step minQty minNotional : ℚ) (he : Js.Num.ofText equityText=.fin e) :
    riskBudget equityText cfg=.fin ((trade top low dist step minQty minNotional cfg).budget e) := by
  unfold riskBudget
  rw [he]
  exact div_fin (by norm_num)

theorem riskOf_fin (he : Js.Num.ofText equityText=.fin e) (hprice : Js.Num.ofText mark=.fin price)
    (hstep : IsStep rules.stepSize step) (hnotional : Js.Num.ofText rules.minNotional=.fin minNotional)
    (hp : p.Priced price ref top low dist) (hs : (trade top low dist step minQty minNotional cfg).Sane) :
    riskOf p equityText mark rules symbol cfg =
      .fin ((trade top low dist step minQty minNotional cfg).quantity e*dist) := by
  unfold riskOf sizedQty
  rw [computeSizing_qty_fin he hprice hstep hnotional hp hs,hprice,hp.distance]
  rfl

theorem affordable_iff (he : Js.Num.ofText equityText=.fin e) (hprice : Js.Num.ofText mark=.fin price)
    (hstep : IsStep rules.stepSize step) (hnotional : Js.Num.ofText rules.minNotional=.fin minNotional)
    (hp : p.Priced price ref top low dist) (hs : (trade top low dist step minQty minNotional cfg).Sane) :
    Affordable p equityText mark rules symbol cfg ↔
      (trade top low dist step minQty minNotional cfg).WithinBudget e
        ((trade top low dist step minQty minNotional cfg).quantity e) := by
  unfold Affordable
  rw [riskBudget_fin top low dist step minQty minNotional he,
    riskOf_fin he hprice hstep hnotional hp hs]
  exact not_lt

theorem neededEquity_fin (symbol : String) (he : Js.Num.ofText equityText=.fin e) (hprice : Js.Num.ofText mark=.fin price)
    (hstep : IsStep rules.stepSize step) (hnotional : Js.Num.ofText rules.minNotional=.fin minNotional)
    (hp : p.Priced price ref top low dist) (hs : (trade top low dist step minQty minNotional cfg).Sane) :
    neededEquity p equityText mark rules symbol cfg=.fin ((trade top low dist step minQty minNotional cfg).needed
      ((trade top low dist step minQty minNotional cfg).quantity e)) := by
  unfold neededEquity
  have hr : cfg.riskPct ≠ 0 := hs.riskPct.ne'
  have hmul : ∀ a b : ℚ, (Js.Num.fin a).mul (.fin b)=.fin (a*b) := fun _ _ => rfl
  rw [riskOf_fin he hprice hstep hnotional hp hs,hmul,div_fin hr,hmul,sub_fin]
  exact div_fin (by norm_num)

end

/-- With more equity, an accepted entry is refused for its least quantity only; and the equity that a
refusal names is enough for the risk. -/
theorem computeSizing_more_equity (he : Js.Num.ofText equityText=.fin e) (hprice : Js.Num.ofText mark=.fin price)
    (hstop : p.stop=.fin stop) (hstep : IsStep rules.stepSize step)
    (hqty : Js.Num.ofText rules.minQty=.fin minQty) (hnotional : Js.Num.ofText rules.minNotional=.fin minNotional)
    (hn : 0 ≤ minNotional) (hr : 0<cfg.riskPct) (hr' : cfg.riskPct ≤ 100) :
    ((computeSizing p equityText mark rules symbol cfg none).ok=true →
      ∀ equityText' e', Js.Num.ofText equityText'=.fin e' → e ≤ e' →
        (computeSizing p equityText' mark rules symbol cfg none).ok=true ∨
          (sizedQty p equityText' mark rules symbol cfg).lt (.fin minQty) ∧
          ∀ low, p.minimumRef (.fin price)=.fin low → minNotional < minQty*low) ∧
    (RefusedForRisk p equityText mark rules symbol cfg →
      ∃ needed, neededEquity p equityText mark rules symbol cfg=.fin needed ∧
        (∃ before, (computeSizing p equityText mark rules symbol cfg none).note=";".intercalate (before ++
          [needText (riskOf p equityText mark rules symbol cfg) (riskBudget equityText cfg) (.fin needed)
            cfg symbol])) ∧
        ∀ equityText' e', Js.Num.ofText equityText'=.fin e' → needed ≤ e' →
          Affordable p equityText' mark rules symbol cfg) := by
  have hqtyFin : ∀ {ref top low dist : ℚ} {text : String} {x : ℚ}, Js.Num.ofText text=.fin x →
      p.Priced price ref top low dist → (trade top low dist step minQty minNotional cfg).Sane →
      sizedQty p text mark rules symbol cfg =
        .fin ((trade top low dist step minQty minNotional cfg).quantity x) := fun hx hp hs =>
    computeSizing_qty_fin hx hprice hstep hnotional hp hs
  constructor
  · intro hok equityText' e' he' hle
    have hchecks := computeSizing_ok_iff.mp hok
    generalize Js.Num.ofText (computeSizing p equityText mark rules symbol cfg none).qty=n at hchecks
    obtain ⟨⟨⟨-,hqpos⟩,hmin,hmax,⟨hfin,-,hpos,hapart,href⟩,-⟩,-⟩ := hchecks
    rw [he] at hmax hpos
    rw [hprice] at hmin hmax hapart href
    rw [hnotional] at hmin
    obtain ⟨ref,top,low,dist,hp,hs⟩ :=
      priced_of_checks minQty hstop hstep.pos hn hr hqpos hmin hmax hfin hpos hapart href
    have he₀ : 0<e := hpos
    obtain ⟨hq,hplace,hwithin⟩ :=
      (computeSizing_ok_fin he hprice hstep hqty hnotional hp hs he₀).mp hok
    obtain ⟨hplace',hwithin'⟩ := Trade.placeable_mono hs he₀.le hle hplace hwithin
    rcases le_or_gt minQty ((trade top low dist step minQty minNotional cfg).quantity e') with hq'|hq'
    · exact .inl ((computeSizing_ok_fin he' hprice hstep hqty hnotional hp hs (he₀.trans_le hle)).mpr
        ⟨hq',hplace',hwithin'⟩)
    · refine .inr ⟨?_,fun low' hlow => ?_⟩
      · rw [hqtyFin he' hp hs]
        exact hq'
      · obtain rfl := Js.Num.fin.inj (hp.lowest.symm.trans hlow)
        exact (Trade.lifted_of_lt_minQty hs hle hq hq').2.2
  · intro href
    obtain ⟨hchecked,hrisk⟩ := id href
    generalize hqn : sizedQty p equityText mark rules symbol cfg=n at hchecked
    obtain ⟨⟨-,hqpos⟩,hmin,hmax,hfin,-,hpos,hapart,hrefpos⟩ := hchecked
    rw [he] at hmax hpos
    rw [hprice] at hmin hmax hapart hrefpos
    rw [hnotional] at hmin
    obtain ⟨ref,top,low,dist,hp,hs⟩ :=
      priced_of_checks minQty hstop hstep.pos hn hr hqpos hmin hmax hfin hpos hapart hrefpos
    obtain rfl := hqn.symm.trans (hqtyFin he hp hs)
    have hplace : (trade top low dist step minQty minNotional cfg).Placeable e
        ((trade top low dist step minQty minNotional cfg).quantity e) := by
      rw [hp.lowest] at hmin
      rw [hp.highest] at hmax
      exact ⟨hqpos,not_lt.mp hmin,not_lt.mp hmax⟩
    rw [affordable_iff he hprice hstep hnotional hp hs] at hrisk
    have hneeded := neededEquity_fin symbol he hprice hstep hnotional hp hs
    refine ⟨_,hneeded,?_,fun equityText' e' he' hle => ?_⟩
    · rw [← hneeded]
      exact href.note
    · have he₀ : 0<e := hpos
      exact (affordable_iff he' hprice hstep hnotional hp hs).mpr
        (Trade.withinBudget_of_needed hs hr' he₀.le hplace hrisk hle)

end

/-! Entries at the market. -/

def marketLong (stop : String) : Proposal := ⟨.long,.market,none,some stop⟩

/-- Ten units are worth the exchange's minimum, and its least quantity is a little larger. -/
def tightRules : SymbolRules := ⟨"0.1","0.1","10.2","100"⟩

/-- Equity 980 is lifted to 10.2 units, and equity 1000 is not lifted from 10. -/
theorem more_equity_refused :
    (computeSizing (marketLong "9.5") "980" "10" tightRules "BTCUSDT" defaultGates none).ok=true ∧
      (computeSizing (marketLong "9.5") "1000" "10" tightRules "BTCUSDT" defaultGates none).ok=false := by
  decide +kernel

def usualRules : SymbolRules := ⟨"0.001","0.1","0.001","100"⟩

theorem usualRules_step : IsStep usualRules.stepSize (1/1000) :=
  ⟨⟨['0'],['0','0','1'],by decide,by simp,by simp,.inr rfl⟩,by decide +kernel,by norm_num⟩

/-- A buy at a limit well below the mark. -/
def limitLong : Proposal := ⟨.long,.limit,some "75000",some "73500"⟩

/-- The numbers of the request and of the rules; and the entry is accepted. -/
theorem usual_accepted : Js.Num.ofText "10000"=.fin 10000 ∧ Js.Num.ofText "77000"=.fin 77000 ∧
    limitLong.stop=.fin 73500 ∧ Js.Num.ofText usualRules.minQty=.fin (1/1000) ∧
    Js.Num.ofText usualRules.minNotional=.fin 100 ∧
    (computeSizing limitLong "10000" "77000" usualRules "BTCUSDT" defaultGates none).ok=true := by
  decide +kernel

theorem usual_sound : ∃ q : ℚ, Js.Num.ofText (computeSizing limitLong "10000" "77000" usualRules
    "BTCUSDT" defaultGates none).qty=.fin q ∧ 1/1000 ≤ q ∧ (none=(none : Option String) → ∃ k : ℤ, q=k*(1/1000)) ∧
    ∀ x, limitLong.FillsAt 77000 x → 100 ≤ q*x ∧
      q*x ≤ 10000*defaultGates.maxNotionalMultiple*(10001/10000) ∧
      (∀ c, Js.Num.inf false=.fin c → q*x ≤ c) ∧ ∀ stop, limitLong.stop=.fin stop →
        limitLong.StopBehind 77000 stop →
          q*limitLong.loss stop x ≤ 10000*defaultGates.riskPct/100*(21/20)+1/1000000000 :=
  have ⟨hequity,hprice,_,hqty,hnotional,haccepted⟩ := usual_accepted
  computeSizing_sound hequity hprice usualRules_step hqty hnotional haccepted

/-- An accepted entry stays so with twice the equity; and the 1400 that the small account is told to need are
enough. -/
theorem usual_more_equity :
    ((computeSizing limitLong "20000" "77000" usualRules "BTCUSDT" defaultGates none).ok=true ∨
      (sizedQty limitLong "20000" "77000" usualRules "BTCUSDT" defaultGates).lt (.fin (1/1000)) ∧
      ∀ low, limitLong.minimumRef (.fin 77000)=.fin low → 100<1/1000*low) ∧
    neededEquity limitLong "100" "77000" usualRules "BTCUSDT" defaultGates=.fin 1400 ∧
      Affordable limitLong "1400" "77000" usualRules "BTCUSDT" defaultGates := by
  obtain ⟨hequity,hprice,hstop,hqty,hnotional,haccepted⟩ := usual_accepted
  constructor
  · exact (computeSizing_more_equity hequity hprice hstop usualRules_step hqty hnotional (by norm_num)
      (by norm_num [defaultGates]) (by norm_num [defaultGates])).1 haccepted "20000" 20000 (by decide +kernel)
      (by norm_num)
  · -- an account of 100 is refused for the risk of the least order
    have hrefused : RefusedForRisk limitLong "100" "77000" usualRules "BTCUSDT" defaultGates := by
      refine ⟨⟨?_,?_,?_,?_⟩,?_⟩
      · decide +kernel
      · decide +kernel
      · decide +kernel
      · decide +kernel
      · unfold Affordable
        decide +kernel
    obtain ⟨needed,hneeded,-,henough⟩ := (computeSizing_more_equity (e := 100) (by decide +kernel) hprice hstop
      usualRules_step hqty hnotional (by norm_num) (by norm_num [defaultGates])
      (by norm_num [defaultGates])).2 hrefused
    have htold : neededEquity limitLong "100" "77000" usualRules "BTCUSDT" defaultGates=.fin 1400 := by
      decide +kernel
    obtain rfl : needed=1400 := Js.Num.fin.inj (hneeded.symm.trans htold)
    exact ⟨htold,henough "1400" 1400 (by decide +kernel) le_rfl⟩

end TradeGate
