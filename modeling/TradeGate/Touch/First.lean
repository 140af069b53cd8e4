import Mathlib.Tactic.Linarith
import Mathlib.Tactic.NormNum
import Mathlib.Tactic.Ring
import Mathlib.Topology.Instances.Real.Lemmas
import Mathlib.Topology.Order.Compact
import Mathlib.Topology.Order.IntermediateValue

/-! First touches of a function on the unit interval, and polygonal functions through four values. -/
namespace Touch
open Set

/-- The first time, from `s` on, at which the value is in the set. -/
def FirstAt (p : ℝ → ℝ) (C : Set ℝ) (s τ : ℝ) : Prop :=
  IsLeast {t | s ≤ t ∧ t ≤ 1 ∧ p t ∈ C} τ

section
variable {p : ℝ → ℝ} {C : Set ℝ} {s τ c : ℝ}

theorem exists_firstAt (hp : ContinuousOn p (Icc 0 1)) (hC : IsClosed C) (hs : 0 ≤ s)
    (h : ∃ t, s ≤ t ∧ t ≤ 1 ∧ p t ∈ C) : ∃ τ, FirstAt p C s τ := by
  have hpre : {t | s ≤ t ∧ t ≤ 1 ∧ p t ∈ C}=Icc s 1 ∩ Set.preimage p C := by
    ext t
    simp only [mem_ofPred_eq,mem_inter_iff,mem_Icc,mem_preimage,and_assoc]
  have hclosed : IsClosed (Icc s 1 ∩ Set.preimage p C) :=
    (hp.mono (Icc_subset_Icc_left hs)).preimage_isClosed_of_isClosed isClosed_Icc hC
  have hcompact : IsCompact (Icc s 1 ∩ Set.preimage p C) :=
    isCompact_Icc.of_isClosed_subset hclosed inter_subset_left
  unfold FirstAt
  rw [hpre]
  apply hcompact.exists_isLeast
  rw [← hpre]
  exact h

/-- A value that starts above a level that belongs to the set has not gone below it at the first
touch. -/
theorem FirstAt.le (h : FirstAt p C s τ) (hp : ContinuousOn p (Icc 0 1)) (hs : 0 ≤ s)
    (hC : c ∈ C) (hstart : c ≤ p s) : c ≤ p τ := by
  obtain ⟨⟨hsτ,hτ,-⟩,hleast⟩ := h
  by_contra hlow
  push Not at hlow
  have hcont : ContinuousOn p (Icc s τ) := hp.mono (Icc_subset_Icc hs hτ)
  obtain ⟨t,ht,hpt⟩ := intermediate_value_Icc' hsτ hcont ⟨hlow.le,hstart⟩
  have hle : τ ≤ t := hleast ⟨ht.1,ht.2.trans hτ,hpt ▸ hC⟩
  have heq : t=τ := le_antisymm ht.2 hle
  rw [heq] at hpt
  exact absurd hpt hlow.ne

/-- A value that starts below a level that belongs to the set has not gone above it at the first
touch. -/
theorem FirstAt.ge (h : FirstAt p C s τ) (hp : ContinuousOn p (Icc 0 1)) (hs : 0 ≤ s)
    (hC : c ∈ C) (hstart : p s ≤ c) : p τ ≤ c := by
  obtain ⟨⟨hsτ,hτ,-⟩,hleast⟩ := h
  by_contra hhigh
  push Not at hhigh
  have hcont : ContinuousOn p (Icc s τ) := hp.mono (Icc_subset_Icc hs hτ)
  obtain ⟨t,ht,hpt⟩ := intermediate_value_Icc hsτ hcont ⟨hstart,hhigh.le⟩
  have hle : τ ≤ t := hleast ⟨ht.1,ht.2.trans hτ,hpt ▸ hC⟩
  have heq : t=τ := le_antisymm ht.2 hle
  rw [heq] at hpt
  exact absurd hpt hhigh.ne'

/-- What is in the set from the start is touched at once. -/
theorem FirstAt.of_start (hs : s ≤ 1) (h : p s ∈ C) : FirstAt p C s s :=
  ⟨⟨le_rfl,hs,h⟩,fun _ ht => ht.1⟩

theorem FirstAt.unique {σ : ℝ} (h : FirstAt p C s τ) (h' : FirstAt p C s σ) : τ=σ :=
  IsLeast.unique h h'

end

/-! ### Polygons -/

/-- The polygon that takes the values at the times 0, 1/3, 2/3 and 1. -/
noncomputable def polygon (w x y z : ℝ) (t : ℝ) : ℝ :=
  if t ≤ 1/3 then w+3*t*(x-w) else if t ≤ 2/3 then x+(3*t-1)*(y-x) else y+(3*t-2)*(z-y)

section
variable {w x y z t M : ℝ}

theorem continuous_polygon (w x y z : ℝ) : Continuous (polygon w x y z) := by
  unfold polygon
  refine Continuous.if_le (by fun_prop) (Continuous.if_le (by fun_prop) (by fun_prop) continuous_id
    continuous_const ?_) continuous_id continuous_const ?_
  · rintro t rfl
    ring
  · rintro t rfl
    rw [if_pos (by norm_num)]
    ring

@[simp] theorem polygon_zero : polygon w x y z 0=w := by norm_num [polygon]

@[simp] theorem polygon_third : polygon w x y z (1/3)=x := by
  rw [polygon,if_pos le_rfl]
  ring

@[simp] theorem polygon_two_thirds : polygon w x y z (2/3)=y := by
  rw [polygon,if_neg (by norm_num),if_pos le_rfl]
  ring

@[simp] theorem polygon_one : polygon w x y z 1=z := by
  rw [polygon,if_neg (by norm_num),if_neg (by norm_num)]
  ring

/-- A point of a segment is below what both ends are below. -/
theorem segment_le {a b u : ℝ} (hu : 0 ≤ u) (hu' : u ≤ 1) (ha : a ≤ M) (hb : b ≤ M) :
    a+u*(b-a) ≤ M := by
  nlinarith [mul_nonneg hu (sub_nonneg.mpr hb),mul_nonneg (sub_nonneg.mpr hu') (sub_nonneg.mpr ha)]

theorem le_segment {a b u : ℝ} (hu : 0 ≤ u) (hu' : u ≤ 1) (ha : M ≤ a) (hb : M ≤ b) :
    M ≤ a+u*(b-a) := by
  nlinarith [mul_nonneg hu (sub_nonneg.mpr hb),mul_nonneg (sub_nonneg.mpr hu') (sub_nonneg.mpr ha)]

/-- The legs of a polygon. -/
theorem polygon_leg (ht : 0 ≤ t) (ht' : t ≤ 1) : ∃ u, 0 ≤ u ∧ u ≤ 1 ∧
    (t ≤ 1/3 ∧ polygon w x y z t=w+u*(x-w) ∨ 1/3<t ∧ t ≤ 2/3 ∧ polygon w x y z t=x+u*(y-x) ∨
      2/3<t ∧ polygon w x y z t=y+u*(z-y)) := by
  by_cases h : t ≤ 1/3
  · refine ⟨3*t,by linarith,by linarith,.inl ⟨h,?_⟩⟩
    rw [polygon,if_pos h]
  · by_cases h' : t ≤ 2/3
    · refine ⟨3*t-1,by linarith,by linarith,.inr (.inl ⟨not_le.mp h,h',?_⟩)⟩
      rw [polygon,if_neg h,if_pos h']
    · refine ⟨3*t-2,by linarith,by linarith,.inr (.inr ⟨not_le.mp h',?_⟩)⟩
      rw [polygon,if_neg h,if_neg h']

theorem polygon_le (ht : 0 ≤ t) (ht' : t ≤ 1) (hw : w ≤ M) (hx : x ≤ M) (hy : y ≤ M) (hz : z ≤ M) :
    polygon w x y z t ≤ M := by
  obtain ⟨u,hu,hu',⟨-,h⟩ | ⟨-,-,h⟩ | ⟨-,h⟩⟩ := polygon_leg (w := w) (x := x) (y := y) (z := z) ht ht'
  · rw [h]
    exact segment_le hu hu' hw hx
  · rw [h]
    exact segment_le hu hu' hx hy
  · rw [h]
    exact segment_le hu hu' hy hz

theorem le_polygon (ht : 0 ≤ t) (ht' : t ≤ 1) (hw : M ≤ w) (hx : M ≤ x) (hy : M ≤ y) (hz : M ≤ z) :
    M ≤ polygon w x y z t := by
  obtain ⟨u,hu,hu',⟨-,h⟩ | ⟨-,-,h⟩ | ⟨-,h⟩⟩ := polygon_leg (w := w) (x := x) (y := y) (z := z) ht ht'
  · rw [h]
    exact le_segment hu hu' hw hx
  · rw [h]
    exact le_segment hu hu' hx hy
  · rw [h]
    exact le_segment hu hu' hy hz

end
end Touch
