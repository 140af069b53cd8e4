import Mathlib.Algebra.Order.Field.Basic
import Mathlib.Tactic.Linarith
import Mathlib.Tactic.Ring
import Mathlib.Tactic.SplitIfs

/-! Token buckets.  Spending is a list of instants and amounts; what a bucket gives out within a span of time is
bounded by what it holds and what flows in. -/
namespace Bucket

variable {K : Type} [Field K] [LinearOrder K] [IsStrictOrderedRing K]

/-- Spending from a bucket that holds some tokens at an instant: every amount is covered by what was held and
what has flown in since, and by what the bucket can hold. -/
inductive Spends (capacity rate : K) : K → K → List (K × K) → Prop
  | nil (tokens u : K) : Spends capacity rate tokens u []
  | cons {tokens u t w tokens' : K} {es : List (K × K)} (hu : u ≤ t) (hw : 0 ≤ w) (hpos : 0 ≤ tokens')
      (hflow : tokens'+w ≤ tokens+rate*(t-u)) (hcap : tokens'+w ≤ capacity)
      (hes : Spends capacity rate tokens' t es) : Spends capacity rate tokens u ((t,w)::es)

/-- What was spent at the instants from `a` to `b`. -/
def total (a b : K) : List (K × K) → K
  | [] => 0
  | (t,w)::es => (if a ≤ t ∧ t ≤ b then w else 0)+total a b es

/-- Smaller amounts make a smaller total. -/
theorem total_le_total {α : Type} {a b : K} {t v w : α → K} {xs : List α} (h : ∀ x ∈ xs, v x ≤ w x) :
    total a b (xs.map fun x => (t x,v x)) ≤ total a b (xs.map fun x => (t x,w x)) := by
  induction xs with
  | nil => exact le_rfl
  | cons x xs ih =>
    obtain ⟨hx,hxs⟩ := List.forall_mem_cons.mp h
    rw [List.map_cons,List.map_cons,total,total]
    refine add_le_add ?_ (ih hxs)
    split_ifs
    · exact hx
    · exact le_rfl

section
variable {capacity rate tokens u a b : K} {es : List (K × K)}

/-- What a bucket that was looked at later can spend, it can spend as it was before. -/
theorem Spends.earlier {tokens' u' : K} (h : Spends capacity rate tokens' u' es) (hu : u ≤ u')
    (hflow : tokens' ≤ tokens+rate*(u'-u)) : Spends capacity rate tokens u es := by
  cases h with
  | nil => exact .nil tokens u
  | @cons _ _ t w tokens'' es hut hw hpos hflow' hcap hes =>
    have hsplit : rate*(t-u)=rate*(t-u')+rate*(u'-u) := by ring
    exact .cons (hu.trans hut) hw hpos (by linarith) hcap hes

omit [IsStrictOrderedRing K] in
/-- Behind the end of the span nothing counts. -/
theorem Spends.total_eq_zero (h : Spends capacity rate tokens u es) (hu : b<u) : total a b es=0 := by
  induction h with
  | nil tokens u => rfl
  | cons hut hw hpos hflow hcap hes ih =>
    rw [total,if_neg fun ht => absurd ht.2 (not_le.mpr (hu.trans_le hut)),ih (hu.trans_le hut),add_zero]

/-- Within the span: what is held, and what flows in until its end. -/
theorem Spends.total_le_flow (hr : 0 ≤ rate) (h : Spends capacity rate tokens u es) (h0 : 0 ≤ tokens) (hub : u ≤ b) :
    total a b es ≤ tokens+rate*(b-u) := by
  induction h with
  | nil tokens u =>
    have hflow := mul_nonneg hr (sub_nonneg.mpr hub)
    rw [total]
    linarith
  | @cons tokens u t w tokens' es hut hw hpos hflow hcap hes ih =>
    rw [total]
    by_cases htb : t ≤ b
    · have hrest := ih hpos htb
      have hsplit : rate*(b-u)=rate*(b-t)+rate*(t-u) := by ring
      split_ifs <;> linarith
    · have hflow' := mul_nonneg hr (sub_nonneg.mpr hub)
      rw [if_neg fun ht => htb ht.2,hes.total_eq_zero (not_le.mp htb)]
      linarith

/-- In every span a bucket gives out at most what it can hold, and what flows in during the span. -/
theorem Spends.total_le (hr : 0 ≤ rate) (hc : 0 ≤ capacity) (hab : a ≤ b) (h : Spends capacity rate tokens u es) :
    total a b es ≤ capacity+rate*(b-a) := by
  have hspan := mul_nonneg hr (sub_nonneg.mpr hab)
  induction h with
  | nil tokens u =>
    rw [total]
    linarith
  | @cons tokens u t w tokens' es hut hw hpos hflow hcap hes ih =>
    rw [total]
    by_cases ht : a ≤ t ∧ t ≤ b
    · have hrest := hes.total_le_flow (a := a) hr hpos ht.2
      have hlate : rate*(b-t) ≤ rate*(b-a) := mul_le_mul_of_nonneg_left (by linarith [ht.1]) hr
      rw [if_pos ht]
      linarith
    · rw [if_neg ht,zero_add]
      exact ih

end

end Bucket
