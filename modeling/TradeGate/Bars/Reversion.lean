import Mathlib.Algebra.Order.Field.Rat
import Mathlib.Tactic.Linarith
import TradeGate.Model.Reversion

/-! The statistics of returns to the average use no hindsight: what was counted over the first bars is counted over
more of them, and only samples whose window has ended are counted. -/
namespace TradeGate.Reversion
open Series Radar
open Numbers hiding max min

section
variable {F : Type} [Numbers F] {o : ReversionOptions} {klines : List Bar} {k : ℚ} {H i j n : ℕ}

theorem causal_read (field : Bar → String) : Causal (Radar.read (F := F) field) := by
  intro xs i
  unfold Radar.read
  rw [getD_take]

theorem online_emaSeries (period : ℕ) : Online fun values : List F => emaSeries values period := by
  refine online_loop fun s xs i => ?_
  dsimp only [emaBody]
  rw [getD_take]

theorem online_atrSeries (period : ℕ) : Online fun klines => (atrSeries klines period : List F) := by
  refine online_loop fun s xs i => ?_
  have hprev : (Radar.read Bar.close (xs.take (i+1)) (i-1) : F)=Radar.read Bar.close xs (i-1) :=
    (causal_read Bar.close).earlier (fun i => Nat.sub_le i 1) xs i
  dsimp only [atrBody]
  rw [causal_read Bar.high,causal_read Bar.low,causal_read Bar.openPrice,hprev]

/-- A position of the first bars. -/
theorem getD_take_of_lt {α : Type} (xs : List α) (d : α) (h : i<n) : (xs.take n).getD i d=xs.getD i d := by
  rw [List.getD_eq_getElem?_getD,List.getD_eq_getElem?_getD,List.getElem?_take_of_lt h]

theorem read_take (field : Bar → String) (h : i<n) : (Radar.read field (klines.take n) i : F)=Radar.read field klines i := by
  unfold Radar.read
  rw [getD_take_of_lt _ _ h]

theorem tableOf_take (o : ReversionOptions) (klines : List Bar) (n : ℕ) : tableOf F o (klines.take n) =
    ⟨klines.take n,(tableOf F o klines).ema.take n,(tableOf F o klines).atr.take n⟩ := by
  unfold tableOf
  rw [List.map_take]
  congr 1
  · exact online_emaSeries o.ema_period _ n
  · exact online_atrSeries o.atr_period klines n

theorem away_take (h : i<n) : (tableOf F o (klines.take n)).away k i=(tableOf F o klines).away k i := by
  rw [tableOf_take]
  unfold Table.away
  dsimp only
  rw [getD_take_of_lt _ _ h,getD_take_of_lt _ _ h,read_take _ h]
  rfl

theorem touches_take (h : j<n) : (tableOf F o (klines.take n)).touches j=(tableOf F o klines).touches j := by
  rw [tableOf_take]
  unfold Table.touches
  dsimp only
  rw [getD_take_of_lt _ _ h,read_take _ h,read_take _ h]
  rfl

/-- A window that has ended is not looked at again. -/
theorem sampleAt_take (h : i+H<n) : (tableOf F o (klines.take n)).sampleAt k H i=(tableOf F o klines).sampleAt k H i := by
  unfold Table.sampleAt
  rw [away_take (Nat.lt_of_le_of_lt (Nat.le_add_right i H) h)]
  have hfind : (List.range' (i+1) H).find? (tableOf F o (klines.take n)).touches =
      (List.range' (i+1) H).find? (tableOf F o klines).touches := by
    rw [← List.head?_filter,← List.head?_filter]
    refine congrArg List.head? (List.filter_congr fun j hj => touches_take ?_)
    have := List.mem_range'_1.mp hj
    omega
  rw [hfind]

theorem filter_range' (a m b : ℕ) : (List.range' a m).filter (fun i => i<b)=List.range' a (min m (b-a)) := by
  induction m generalizing a with
  | zero => rw [Nat.zero_min]; rfl
  | succ m ih =>
    rw [List.range'_succ]
    by_cases h : a<b
    · rw [List.filter_cons_of_pos (by simpa using h),ih,show min (m+1) (b-a)=min m (b-(a+1))+1 by omega,List.range'_succ]
    · rw [List.filter_cons_of_neg (by simpa using h),ih,show min m (b-(a+1))=min (m+1) (b-a) by omega,
        show min (m+1) (b-a)=0 by omega]
      rfl

theorem at_of_sampleAt {t : Table F} {s : Sample} (h : t.sampleAt k H i=some s) : s.at_=i := by
  unfold Table.sampleAt at h
  split at h
  · cases h
    rfl
  · cases h

theorem samples_take (o : ReversionOptions) (klines : List Bar) (k : ℚ) (H n : ℕ) :
    (tableOf F o (klines.take n)).samples o k H =
      ((tableOf F o klines).samples o k H).filter fun s => s.at_+H<n := by
  have hrange : List.range' (warm o) ((klines.take n).length-H-warm o) =
      (List.range' (warm o) (klines.length-H-warm o)).filter fun i => i<n-H := by
    rw [filter_range',List.length_take]
    congr 1
    omega
  calc (tableOf F o (klines.take n)).samples o k H
    _ = ((List.range' (warm o) (klines.length-H-warm o)).filter fun i => i<n-H).filterMap
        ((tableOf F o (klines.take n)).sampleAt k H) := by rw [← hrange]; rfl
    _ = ((List.range' (warm o) (klines.length-H-warm o)).filter fun i => i<n-H).filterMap
        ((tableOf F o klines).sampleAt k H) := by
      refine List.filterMap_congr fun i hi => sampleAt_take ?_
      have := of_decide_eq_true (List.mem_filter.mp hi).2
      omega
    _ = ((tableOf F o klines).samples o k H).filter fun s => s.at_+H<n := by
      unfold Table.samples
      rw [List.filterMap_filter,List.filter_filterMap]
      refine List.filterMap_congr fun i _ => ?_
      cases hs : (tableOf F o klines).sampleAt k H i with
      | none => split <;> rfl
      | some s =>
        rw [Option.filter_some,at_of_sampleAt hs]
        refine if_congr ?_ rfl rfl
        rw [decide_eq_true_eq,decide_eq_true_eq]
        omega

/-- The sample is what it says: a bar away from the average, with the first of the bars after it that touch theirs,
if there is one in the window. -/
structure Table.Sampled (t : Table F) (o : ReversionOptions) (k : ℚ) (H : ℕ) (s : Sample) : Prop where
  warm : warm o ≤ s.at_
  inside : s.at_+H<t.klines.length
  away : t.away k s.at_=true
  back : ∀ b, s.reverted=some b ↔ 1 ≤ b ∧ b ≤ H ∧ t.touches (s.at_+b)=true ∧
    ∀ c, 1 ≤ c → c<b → t.touches (s.at_+c)=false

theorem find_range' {p : ℕ → Bool} {a m j : ℕ} : (List.range' a m).find? p=some j ↔
    a ≤ j ∧ j<a+m ∧ p j=true ∧ ∀ c, a ≤ c → c<j → p c=false := by
  induction m generalizing a with
  | zero => simp; omega
  | succ m ih =>
    rw [List.range'_succ]
    cases hp : p a with
    | true =>
      rw [List.find?_cons_of_pos hp]
      constructor
      · rintro ⟨⟩
        exact ⟨Nat.le_refl _,by omega,hp,fun c _ _ => by omega⟩
      · rintro ⟨hle,-,-,hmin⟩
        by_contra hne
        have hlt : a<j := Nat.lt_of_le_of_ne hle fun he => hne (congrArg some he)
        rw [hmin a (Nat.le_refl a) hlt] at hp
        cases hp
    | false =>
      rw [List.find?_cons_of_neg (by simp [hp]),ih]
      constructor
      · rintro ⟨hle,hlt,hj,hmin⟩
        refine ⟨by omega,by omega,hj,fun c hc hcj => ?_⟩
        rcases Nat.eq_or_lt_of_le hc with rfl | hc
        · exact hp
        · exact hmin c hc hcj
      · rintro ⟨hle,hlt,hj,hmin⟩
        have hne : a ≠ j := by
          rintro rfl
          rw [hp] at hj
          cases hj
        exact ⟨by omega,by omega,hj,fun c hc hcj => hmin c (by omega) hcj⟩

theorem sampled_of_mem {t : Table F} {s : Sample} (h : s ∈ t.samples o k H) : t.Sampled o k H s := by
  obtain ⟨i,hi,hs⟩ := List.mem_filterMap.mp h
  have hat := at_of_sampleAt hs
  obtain ⟨hlow,hhigh⟩ := List.mem_range'_1.mp hi
  subst hat
  unfold Table.sampleAt at hs
  split at hs
  · next haway =>
    have hback := congrArg Sample.reverted (Option.some.inj hs)
    dsimp only at hback
    refine ⟨hlow,by omega,haway,fun b => ?_⟩
    rw [← hback,Option.map_eq_some_iff]
    constructor
    · rintro ⟨j,hj,rfl⟩
      obtain ⟨hle,hlt,htouch,hmin⟩ := find_range'.mp hj
      refine ⟨by omega,by omega,?_,fun c hc hcb => hmin _ (by omega) (by omega)⟩
      rw [Nat.add_sub_cancel' (by omega)]
      exact htouch
    · rintro ⟨hb,hbH,htouch,hmin⟩
      refine ⟨s.at_+b,find_range'.mpr ⟨by omega,by omega,htouch,fun c hc hcb => ?_⟩,by omega⟩
      have := hmin (c-s.at_) (by omega) (by omega)
      rwa [Nat.add_sub_cancel' (by omega)] at this
  · cases hs

end

/-! What is made of the samples. -/
section
variable {xs : List ℕ} {a b : ℕ} {m : ℚ}

theorem median_bounds (h : ∀ x ∈ xs, a ≤ x ∧ x ≤ b) (hm : median xs=some m) : a ≤ m ∧ m ≤ b := by
  unfold median at hm
  dsimp only at hm
  split at hm
  · cases hm
  · next hne =>
    have hlen := List.length_pos_iff.mpr hne
    have hget : ∀ i<(xs.insertionSort (· ≤ ·)).length, a ≤ ((xs.insertionSort (· ≤ ·)).getD i 0 : ℚ) ∧
        ((xs.insertionSort (· ≤ ·)).getD i 0 : ℚ) ≤ b := by
      intro i hi
      rw [List.getD_eq_getElem?_getD,List.getElem?_eq_getElem hi,Option.getD_some]
      have hmem := h _ ((List.mem_insertionSort _).mp (List.getElem_mem hi))
      exact ⟨by exact_mod_cast hmem.1,by exact_mod_cast hmem.2⟩
    cases hm
    split
    · exact hget _ (by omega)
    · obtain ⟨h₁,h₂⟩ := hget ((xs.insertionSort (· ≤ ·)).length/2-1) (by omega)
      obtain ⟨h₃,h₄⟩ := hget ((xs.insertionSort (· ≤ ·)).length/2) (by omega)
      constructor <;> linarith

/-- A share of the samples, and a middle of the windows. -/
structure ReversionCell.Proper (c : ReversionCell) : Prop where
  prob : ∀ p ∈ c.prob, 0 ≤ p ∧ p ≤ 1
  median : ∀ m ∈ c.median_bars, 1 ≤ m ∧ m ≤ c.horizon

theorem cellOf_proper {k : ℚ} {H : ℕ} {samples : List Sample}
    (h : ∀ s ∈ samples, ∀ b, s.reverted=some b → 1 ≤ b ∧ b ≤ H) : (cellOf k H samples).Proper := by
  constructor
  · intro p hp
    unfold cellOf at hp
    dsimp only at hp
    split at hp
    · cases hp
    · next hne =>
      cases hp
      have hpos : (0 : ℚ)<samples.length := by exact_mod_cast List.length_pos_iff.mpr hne
      have hle : ((samples.filterMap Sample.reverted).length : ℚ) ≤ samples.length := by
        exact_mod_cast List.length_filterMap_le _ _
      exact ⟨div_nonneg (Nat.cast_nonneg _) hpos.le,(div_le_one hpos).mpr hle⟩
  · intro m hm
    have hbounds : ∀ x ∈ samples.filterMap Sample.reverted, 1 ≤ x ∧ x ≤ H := by
      intro x hx
      obtain ⟨s,hs,hx⟩ := List.mem_filterMap.mp hx
      exact h s hs x hx
    exact_mod_cast median_bounds hbounds hm

end

/-- No hindsight: the statistics of the first bars are those of the samples, among all that were ever counted, whose
window had ended by then; and each says of the bars what was so. -/
theorem reversion_settled {F : Type} [Numbers F] (o : ReversionOptions) (klines : List Bar) (n : ℕ) :
    cells F o (klines.take n)=(o.ks.flatMap fun k => o.horizons.map fun H =>
      cellOf k H (((tableOf F o klines).samples o k H).filter fun s => s.at_+H<n)) ∧
    (∀ k H, ∀ s ∈ (tableOf F o klines).samples o k H, (tableOf F o klines).Sampled o k H s) ∧
    ∀ c ∈ cells F o klines, c.Proper := by
  refine ⟨?_,fun k H s hs => sampled_of_mem hs,fun c hc => ?_⟩
  · unfold cells
    simp only [samples_take]
  · unfold cells at hc
    obtain ⟨k,-,hc⟩ := List.mem_flatMap.mp hc
    obtain ⟨H,-,rfl⟩ := List.mem_map.mp hc
    refine cellOf_proper fun s hs b hb => ?_
    obtain ⟨hone,hle,-,-⟩ := ((sampled_of_mem hs).back b).mp hb
    exact ⟨hone,hle⟩

end TradeGate.Reversion
