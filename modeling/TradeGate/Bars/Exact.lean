import Mathlib.Algebra.BigOperators.Group.List.Basic
import Mathlib.Algebra.Order.BigOperators.Group.List
import Mathlib.Tactic.FieldSimp
import Mathlib.Tactic.Linarith
import TradeGate.Model.Indicators

/-! Numbers that compute exactly with rationals, and series of them: no value yet, or a rational of which
something holds. -/
namespace TradeGate.Indicators
open Series Radar Numbers

/-- Finite numbers are rationals, and results of rationals are exact. -/
class ExactNumbers (F : Type) [Numbers F] : Prop where
  lit_inj {a b : ℚ} : (lit a : F)=lit b → a=b
  add_lit (a b : ℚ) : add (lit a : F) (lit b)=lit (a+b)
  sub_lit (a b : ℚ) : sub (lit a : F) (lit b)=lit (a-b)
  mul_lit (a b : ℚ) : mul (lit a : F) (lit b)=lit (a*b)
  div_lit (a : ℚ) {b : ℚ} (hb : b ≠ 0) : div (lit a : F) (lit b)=lit (a/b)
  max_lit (a b : ℚ) : max (lit a : F) (lit b)=lit (Max.max a b)
  min_lit (a b : ℚ) : min (lit a : F) (lit b)=lit (Min.min a b)
  abs_lit (a : ℚ) : abs (lit a : F)=lit |a|
  lt_lit (a b : ℚ) : lt (lit a : F) (lit b)=decide (a<b)
  le_lit (a b : ℚ) : le (lit a : F) (lit b)=decide (a ≤ b)
  isFinite_lit (a : ℚ) : isFinite (lit a : F)=true
  isFinite_nan : isFinite (nan : F)=false
  negInfinity_lt (a : ℚ) : lt (negInfinity : F) (lit a)=true
  lt_infinity (a : ℚ) : lt (lit a) (infinity : F)=true
  le_infinity : le (infinity : F) negInfinity=false
  sub_infinity (a : ℚ) : sub (lit a) (infinity : F)=negInfinity
  negInfinity_sub (a : ℚ) : sub (negInfinity : F) (lit a)=negInfinity
  negInfinity_sub_infinity : sub (negInfinity : F) infinity=negInfinity
  div_negInfinity : div (negInfinity : F) negInfinity=nan
  nan_mul (a : ℚ) : mul (nan : F) (lit a)=nan

instance : ExactNumbers Js.Num where
  lit_inj h := Js.Num.fin.inj h
  add_lit _ _ := rfl
  sub_lit a b := congrArg Js.Num.fin (sub_eq_add_neg a b).symm
  mul_lit _ _ := rfl
  div_lit a b hb := by
    change Js.Num.div (.fin a) (.fin b)=_
    rw [Js.Num.div,if_neg hb]
    rfl
  max_lit a b := by
    change Js.Num.max (.fin a) (.fin b)=Js.Num.fin (Max.max a b)
    rw [Js.Num.max,if_neg (by simp)]
    change (if a<b then Js.Num.fin b else .fin a)=_
    split
    · rw [max_eq_right (le_of_lt ‹_›)]
    · rw [max_eq_left (not_lt.mp ‹_›)]
  min_lit a b := by
    change Js.Num.min (.fin a) (.fin b)=Js.Num.fin (Min.min a b)
    rw [Js.Num.min,if_neg (by simp)]
    change (if b<a then Js.Num.fin b else .fin a)=_
    split
    · rw [min_eq_right (le_of_lt ‹_›)]
    · rw [min_eq_left (not_lt.mp ‹_›)]
  abs_lit _ := rfl
  lt_lit _ _ := rfl
  le_lit a b := by
    change decide (Js.Num.le (.fin a) (.fin b))=_
    rw [decide_eq_decide]
    constructor
    · intro h
      cases h with
      | inl hlt => exact le_of_lt hlt
      | inr heq => exact (Js.Num.fin.inj heq.1).le
    · exact Js.Num.le_fin
  isFinite_lit _ := rfl
  isFinite_nan := rfl
  negInfinity_lt _ := rfl
  lt_infinity _ := rfl
  le_infinity := rfl
  sub_infinity _ := rfl
  negInfinity_sub _ := rfl
  negInfinity_sub_infinity := rfl
  div_negInfinity := rfl
  nan_mul _ := rfl

/-- Numbers among which a division by zero leaves a trace: what is computed from its result is marked. -/
inductive Checked
  | num (x : Js.Num)
  | divisionByZero
deriving DecidableEq

namespace Checked

def map (f : Js.Num → Js.Num) : Checked → Checked
  | num x => num (f x)
  | divisionByZero => divisionByZero

def map₂ (f : Js.Num → Js.Num → Js.Num) : Checked → Checked → Checked
  | num x, num y => num (f x y)
  | _, _ => divisionByZero

def test (p : Js.Num → Js.Num → Bool) : Checked → Checked → Bool
  | num x, num y => p x y
  | _, _ => false

def div (a b : Checked) : Checked := if b=num (.fin 0) then divisionByZero else map₂ Js.Num.div a b

instance : Numbers Checked where
  ofText s := num (.ofText s)
  lit a := num (.fin a)
  nan := num .nan
  infinity := num (.inf false)
  negInfinity := num (.inf true)
  add := map₂ Js.Num.add
  sub := map₂ Js.Num.sub
  mul := map₂ Js.Num.mul
  div := div
  max := map₂ Js.Num.max
  min := map₂ Js.Num.min
  abs := map Js.Num.abs
  lt := test fun a b => a.lt b
  le := test fun a b => a.le b
  isFinite
    | num x => x.isFinite
    | divisionByZero => false

end Checked

instance : ExactNumbers Checked where
  lit_inj h := Js.Num.fin.inj (Checked.num.inj h)
  add_lit _ _ := rfl
  sub_lit a b := congrArg Checked.num (ExactNumbers.sub_lit (F := Js.Num) a b)
  mul_lit _ _ := rfl
  div_lit a b hb := by
    have hne : ¬Checked.num (.fin b)=Checked.num (.fin 0) := by
      intro heq
      exact hb (Js.Num.fin.inj (Checked.num.inj heq))
    change Checked.div (.num (.fin a)) (.num (.fin b))=_
    rw [Checked.div,if_neg hne]
    exact congrArg Checked.num (ExactNumbers.div_lit (F := Js.Num) a hb)
  max_lit a b := congrArg Checked.num (ExactNumbers.max_lit (F := Js.Num) a b)
  min_lit a b := congrArg Checked.num (ExactNumbers.min_lit (F := Js.Num) a b)
  abs_lit _ := rfl
  lt_lit _ _ := rfl
  le_lit a b := ExactNumbers.le_lit (F := Js.Num) a b
  isFinite_lit _ := rfl
  isFinite_nan := rfl
  negInfinity_lt _ := rfl
  lt_infinity _ := rfl
  le_infinity := rfl
  sub_infinity _ := rfl
  negInfinity_sub _ := rfl
  negInfinity_sub_infinity := rfl
  div_negInfinity := rfl
  nan_mul _ := rfl

/-- The bar in other numbers. -/
def Bar.lift (F : Type) [Numbers F] (k : Bar ℚ) : Bar F where
  openPrice := lit k.openPrice
  high := lit k.high
  low := lit k.low
  close := lit k.close
  openTime := k.openTime
  volume := lit k.volume

def lift (F : Type) [Numbers F] (ks : List (Bar ℚ)) : List (Bar F) := ks.map (Bar.lift F)

section
variable {F : Type} [Numbers F]

/-- No value yet, or a rational with the property. -/
def Holds (P : ℚ → Prop) (x : F) : Prop := x=nan ∨ ∃ q, x=lit q ∧ P q

/-- Neither of two values is there yet, or they are rationals in the relation. -/
def HoldBoth (R : ℚ → ℚ → Prop) (x y : F) : Prop := x=nan ∧ y=nan ∨ ∃ p q, x=lit p ∧ y=lit q ∧ R p q

/-- No value yet, or a rational of the range. -/
abbrev Within (lo hi : ℚ) : F → Prop := Holds fun q => lo ≤ q ∧ q ≤ hi

theorem HoldBoth.left {R : ℚ → ℚ → Prop} {P : ℚ → Prop} {x y : F} (h : HoldBoth R x y)
    (hR : ∀ p q, R p q → P p) : Holds P x := by
  cases h with
  | inl hnan => exact .inl hnan.1
  | inr hlit =>
    obtain ⟨p,q,hp,-,hpq⟩ := hlit
    exact .inr ⟨p,hp,hR p q hpq⟩

theorem holds_nan {P : ℚ → Prop} : Holds P (nan : F) := .inl rfl

theorem holds_lit {P : ℚ → Prop} {q : ℚ} (h : P q) : Holds P (lit q : F) := .inr ⟨q,rfl,h⟩

theorem HoldBoth.diag {P : ℚ → Prop} {x : F} (h : Holds P x) : HoldBoth (fun p q => p=q ∧ P p) x x := by
  cases h with
  | inl hnan => exact .inl ⟨hnan,hnan⟩
  | inr hlit =>
    obtain ⟨q,hq,hP⟩ := hlit
    exact .inr ⟨q,q,hq,hq,rfl,hP⟩

theorem Holds.undiag {P : ℚ → Prop} {x : F} (h : HoldBoth (fun p q => p=q ∧ P p) x x) : Holds P x :=
  h.left fun _ _ hpq => hpq.2

/-- Means of numbers with the property have it. -/
def Convex (P : ℚ → Prop) : Prop := ∀ qs : List ℚ, qs ≠ [] → (∀ q ∈ qs, P q) → P (qs.sum/qs.length)

def ConvexBoth (R : ℚ → ℚ → Prop) : Prop := ∀ ps : List (ℚ × ℚ), ps ≠ [] → (∀ p ∈ ps, R p.1 p.2) →
  R ((ps.map Prod.fst).sum/ps.length) ((ps.map Prod.snd).sum/ps.length)

theorem convex_nonneg : Convex fun q => 0 ≤ q := by
  intro qs _ h
  exact div_nonneg (List.sum_nonneg h) (Nat.cast_nonneg _)

theorem sum_le_length_mul {qs : List ℚ} {hi : ℚ} (h : ∀ q ∈ qs, q ≤ hi) : qs.sum ≤ qs.length*hi := by
  have hle := List.sum_le_card_nsmul qs hi h
  rwa [nsmul_eq_mul] at hle

theorem length_mul_le_sum {qs : List ℚ} {lo : ℚ} (h : ∀ q ∈ qs, lo ≤ q) : qs.length*lo ≤ qs.sum := by
  have hle := List.card_nsmul_le_sum qs lo h
  rwa [nsmul_eq_mul] at hle

theorem convex_between (lo hi : ℚ) : Convex fun q => lo ≤ q ∧ q ≤ hi := by
  intro qs hne h
  have hpos : (0 : ℚ)<qs.length := by exact_mod_cast List.length_pos_iff.mpr hne
  constructor
  · rw [le_div_iff₀ hpos,mul_comm]
    exact length_mul_le_sum fun q hq => (h q hq).1
  · rw [div_le_iff₀ hpos,mul_comm]
    exact sum_le_length_mul fun q hq => (h q hq).2

theorem Convex.diag {P : ℚ → Prop} (h : Convex P) : ConvexBoth fun p q => p=q ∧ P p := by
  intro ps hne hps
  have heq : ps.map Prod.fst=ps.map Prod.snd := List.map_congr_left fun p hp => (hps p hp).1
  refine ⟨by rw [heq],?_⟩
  have hmean := h (ps.map Prod.fst) (by simpa using hne) (by
    intro q hq
    obtain ⟨p,hp,rfl⟩ := List.mem_map.mp hq
    exact (hps p hp).2)
  rwa [List.length_map] at hmean

/-- One of the numbers is between zero and the other. -/
theorem convexBoth_le : ConvexBoth fun p q => 0 ≤ p ∧ p ≤ q := by
  intro ps hne h
  have hpos : (0 : ℚ) ≤ ps.length := Nat.cast_nonneg _
  constructor
  · apply div_nonneg _ hpos
    apply List.sum_nonneg
    intro q hq
    obtain ⟨p,hp,rfl⟩ := List.mem_map.mp hq
    exact (h p hp).1
  · apply div_le_div_of_nonneg_right _ hpos
    exact List.sum_le_sum fun p hp => (h p hp).2

/-! Bars in other numbers. -/

variable {ks : List (Bar ℚ)} {i : ℕ}

theorem barAt_lift {k : Bar ℚ} (hk : ks[i]?=some k) : barAt (lift F ks) i=k.lift F := by
  unfold barAt lift
  rw [List.getD_eq_getElem?_getD,List.getElem?_map,hk]
  rfl

theorem closes_lift (ks : List (Bar ℚ)) : closes (lift F ks)=(ks.map fun k => k.close).map lit := by
  simp [closes,lift,Bar.lift]

theorem getD_lit {qs : List ℚ} {q : ℚ} (h : qs[i]?=some q) : (qs.map lit : List F).getD i nan=lit q := by
  rw [List.getD_eq_getElem?_getD,List.getElem?_map,h]
  rfl

theorem length_lift (ks : List (Bar ℚ)) : (lift F ks).length=ks.length := by
  simp [lift]

theorem getElem?_of_lt_length {α : Type} {xs : List α} (hi : i<xs.length) : ∃ x, xs[i]?=some x :=
  ⟨xs[i],List.getElem?_eq_getElem hi⟩

theorem window_lift_nil {n : ℕ} (h : window n ks i=[]) : window n (lift F ks) i=[] := by
  rw [lift,window_map,h]
  rfl

end
end TradeGate.Indicators
