import Mathlib.Algebra.Order.Floor.Ring
import Mathlib.Tactic.Linarith
import Mathlib.Tactic.FieldSimp

/-! Amounts in whole lots.  An amount is rounded down, where one that is short of a lot by less than a
tolerance counts as the lot; and one lot more is taken where the lots are worth too little. -/
namespace Lots

variable {K : Type} [Field K] [LinearOrder K] [IsStrictOrderedRing K] [FloorRing K]
  {tol s price least x y : K} {k : ℤ}

/-- The whole lots of size `s` in an amount. -/
def held (tol s x : K) : ℤ := ⌊x/s+tol⌋

/-- The lots that are worth the least value at a price. -/
def reaching (tol s price least x : K) : ℤ :=
  if 0<least ∧ held tol s x*s*price<least then held tol s x+1 else held tol s x

theorem held_mono (hs : 0<s) (h : x ≤ y) : held tol s x ≤ held tol s y := by
  refine Int.floor_le_floor ?_
  have := div_le_div_of_nonneg_right h hs.le
  linarith

theorem held_mul_le (hs : 0<s) : held tol s x*s ≤ x+tol*s := by
  have h := mul_le_mul_of_nonneg_right (Int.floor_le (x/s+tol)) hs.le
  rwa [add_mul,div_mul_cancel₀ _ hs.ne'] at h

theorem lt_held_succ (hs : 0<s) : x+tol*s<(held tol s x+1)*s := by
  have h := mul_lt_mul_of_pos_right (Int.lt_floor_add_one (x/s+tol)) hs
  rwa [add_mul,div_mul_cancel₀ _ hs.ne'] at h

/-- Lots are counted by their worth. -/
theorem lt_of_worth_lt {j k : ℤ} (hs : 0<s) (hp : 0<price) (h : (j : K)*s*price<k*s*price) : j<k := by
  have h' : (j : K)<k := by
    rw [mul_assoc,mul_assoc] at h
    exact lt_of_mul_lt_mul_right h (mul_pos hs hp).le
  exact_mod_cast h'

omit [IsStrictOrderedRing K] in
/-- More lots than are held are taken only where those are worth too little. -/
theorem reaching_eq_or (tol s price least x : K) :
    reaching tol s price least x=held tol s x ∨ 0<least ∧ held tol s x*s*price<least ∧
      reaching tol s price least x=held tol s x+1 := by
  unfold reaching
  split
  · next h => exact .inr ⟨h.1,h.2,rfl⟩
  · exact .inl rfl

omit [IsStrictOrderedRing K] in
theorem held_le_reaching : held tol s x ≤ reaching tol s price least x := by
  obtain h|⟨-,-,h⟩ := reaching_eq_or tol s price least x
  · exact h.ge
  · omega

omit [IsStrictOrderedRing K] in
theorem worth_of_not_lt (h : ¬(0<least ∧ held tol s x*s*price<least)) (hl : 0<least) :
    least ≤ held tol s x*s*price := by
  by_contra hlt
  exact h ⟨hl,not_le.mp hlt⟩

/-- An amount that is worth the least value still is in whole lots. -/
theorem least_le_reaching (hs : 0<s) (hp : 0<price) (htol : 0 ≤ tol) (hl : 0<least)
    (hx : least ≤ x*price) : least ≤ reaching tol s price least x*s*price := by
  unfold reaching
  split
  · have hlt : x+tol*s<(held tol s x+1)*s := lt_held_succ hs
    have hnonneg := mul_nonneg htol hs.le
    calc least
      _ ≤ x*price := hx
      _ ≤ (held tol s x+1)*s*price := mul_le_mul_of_nonneg_right (by linarith) hp.le
      _ = ((held tol s x+1 : ℤ) : K)*s*price := by push_cast; rfl
  · next h => exact worth_of_not_lt h hl

/-- Where one more lot is taken, no fewer lots are worth the least value. -/
theorem reaching_le (tol x : K) (hs : 0<s) (hp : 0<least → 0<price) (hk : least ≤ k*s*price) :
    reaching tol s price least x ≤ k ∨ reaching tol s price least x=held tol s x := by
  obtain h|⟨hl,hlt,h⟩ := reaching_eq_or tol s price least x
  · exact .inr h
  · have := lt_of_worth_lt hs (hp hl) (hlt.trans_le hk)
    exact .inl (by omega)

theorem reaching_mono (hs : 0<s) (hp : 0<least → 0<price) (h : x ≤ y) :
    reaching tol s price least x ≤ reaching tol s price least y := by
  have hmono : held tol s x ≤ held tol s y := held_mono hs h
  obtain hx|⟨hl,hlt,hx⟩ := reaching_eq_or tol s price least x
  · rw [hx]
    exact hmono.trans held_le_reaching
  · obtain hy|⟨-,-,hy⟩ := reaching_eq_or tol s price least y
    · have hworth : least ≤ held tol s y*s*price := by
        refine worth_of_not_lt (fun hlow => ?_) hl
        unfold reaching at hy
        rw [if_pos hlow] at hy
        omega
      have := lt_of_worth_lt hs (hp hl) (hlt.trans_le hworth)
      omega
    · omega

/-- Whole lots exceed an amount by a part of the tolerance only. -/
theorem held_mul_le_of_pos (hs : 0<s) (htol : 0 ≤ tol) (hk : 0<held tol s x) :
    held tol s x*s*(1-tol) ≤ x := by
  have hle : held tol s x*s ≤ x+tol*s := held_mul_le hs
  have hone : s ≤ held tol s x*s := by
    have : (1 : K) ≤ held tol s x := by exact_mod_cast hk
    nlinarith
  nlinarith

end Lots
