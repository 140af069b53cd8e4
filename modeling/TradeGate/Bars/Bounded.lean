import TradeGate.Bars.Ranges

/-! Money flow, directional lines, freshness and ranks stay in their ranges; then all the oscillators do. -/
namespace TradeGate.Indicators
open Series Radar Numbers ExactNumbers

section
variable {F : Type} [Numbers F] [ExactNumbers F] {ks : List (Bar ℚ)} {i : ℕ}

/-! `mfi`. -/

/-- The prices and the volumes of the window are not negative, so neither are the flows. -/
theorem flows_nonneg {w : List (F × F)} (hw : ∀ p ∈ w, ∃ t v : ℚ, p=(lit t,lit v) ∧ 0 ≤ t ∧ 0 ≤ v) :
    ∃ a b : ℚ, flows w=(lit a,lit b) ∧ 0 ≤ a ∧ 0 ≤ b := by
  have hread : ∀ j<w.length, ∃ t v : ℚ, w.getD j (nan,nan)=(lit t,lit v) ∧ 0 ≤ t ∧ 0 ≤ v := by
    intro j hj
    rw [List.getD_eq_getElem?_getD,List.getElem?_eq_getElem hj]
    exact hw _ (List.getElem_mem hj)
  have hfold : ∀ (js : List ℕ), (∀ j ∈ js, j<w.length) → ∀ a b : ℚ, 0 ≤ a → 0 ≤ b →
      ∃ a' b' : ℚ, js.foldl (fun acc j =>
        let p := w.getD j (nan,nan)
        let before := (w.getD (j-1) (nan,nan)).1
        let flow := mul p.1 p.2
        if lt before p.1 then (add acc.1 flow,acc.2) else if lt p.1 before then (acc.1,add acc.2 flow) else acc)
        ((lit a,lit b) : F × F)=(lit a',lit b') ∧ 0 ≤ a' ∧ 0 ≤ b' := by
    intro js
    induction js with
    | nil => exact fun _ a b ha hb => ⟨a,b,rfl,ha,hb⟩
    | cons j js ih =>
      intro hjs a b ha hb
      have hj := hjs j List.mem_cons_self
      obtain ⟨t,v,htv,ht,hv⟩ := hread j hj
      obtain ⟨t',v',htv',-,-⟩ := hread (j-1) (by omega)
      have hjs' : ∀ j ∈ js, j<w.length := fun j hj => hjs j (List.mem_cons_of_mem _ hj)
      have hflow : 0 ≤ t*v := mul_nonneg ht hv
      rw [List.foldl_cons,htv,htv']
      dsimp only
      rw [mul_lit,lt_lit,lt_lit,add_lit,add_lit]
      split
      · exact ih hjs' (a+t*v) b (add_nonneg ha hflow) hb
      split
      · exact ih hjs' a (b+t*v) ha (add_nonneg hb hflow)
      · exact ih hjs' a b ha hb
  apply hfold _ _ 0 0 le_rfl le_rfl
  intro j hj
  obtain ⟨hlo,hhi⟩ := List.mem_range'_1.mp hj
  omega

theorem mfi_within (hks : ∀ k ∈ ks, k.WellFormed) (period : ℕ) : ∀ x ∈ mfi (lift F ks) period, Within 0 100 x := by
  apply all_iff.mp
  apply all_along
  intro i _
  have hpoints : ∀ p ∈ (typicalPrices (lift F ks)).zip (volumes (lift F ks)),
      ∃ t v : ℚ, p=(lit t,lit v) ∧ 0 ≤ t ∧ 0 ≤ v := by
    unfold typicalPrices volumes lift
    rw [List.map_map,List.map_map,List.zip_map']
    intro p hp
    obtain ⟨k,hk,rfl⟩ := List.mem_map.mp hp
    have hwf := hks k hk
    have hlow := hwf.low_pos
    have hclose := hwf.low_close
    have hhigh := hwf.close_high
    refine ⟨(k.high+k.low+k.close)/3,k.volume,?_,by linarith,hwf.volume_nonneg⟩
    simp only [Function.comp_apply,Bar.lift,add_lit]
    rw [div_lit _ (by norm_num)]
  obtain ⟨a,b,heq,ha,hb⟩ := flows_nonneg (w := window (period+1) ((typicalPrices (lift F ks)).zip
    (volumes (lift F ks))) i) fun p hp => hpoints p (mem_of_mem_window hp)
  dsimp only
  split
  · exact holds_nan
  · rw [heq]
    exact strength_within ha hb

/-! `adx`. -/

/-- A move beyond the bar before is no longer than the true range. -/
theorem directional_le (hks : ∀ k ∈ ks, k.WellFormed) (up : Bool) :
    AllBoth (fun p q => 0 ≤ p ∧ p ≤ q) (directional up (lift F ks)) ((trueRange (lift F ks)).set 0 nan) := by
  constructor
  · rw [List.length_set,directional,trueRange,length_along,length_along]
  intro i
  cases i with
  | zero =>
    left
    constructor
    · rw [directional,getD_along]
      split <;> rfl
    · rw [List.getD_eq_getElem?_getD,List.getElem?_set,if_pos rfl]
      split <;> rfl
  | succ i =>
    rw [List.getD_eq_getElem?_getD (l := List.set _ _ _),List.getElem?_set_ne (by omega),
      ← List.getD_eq_getElem?_getD,directional,trueRange,getD_along,getD_along,length_lift]
    split
    · rename_i hi
      obtain ⟨k,hk⟩ := getElem?_of_lt_length hi
      obtain ⟨k',hk'⟩ := getElem?_of_lt_length (show i<ks.length by omega)
      have hwf := hks k (List.mem_of_getElem? hk)
      have hwf' := hks k' (List.mem_of_getElem? hk')
      have hclose := hwf'.low_close
      have hhigh := hwf'.close_high
      have hrise : k.high-k'.high ≤ |k.high-k'.close| := le_trans (by linarith) (le_abs_self _)
      have hfall : k'.low-k.low ≤ |k.low-k'.close| := by
        rw [abs_sub_comm]
        exact le_trans (by linarith) (le_abs_self _)
      right
      rw [barAt_lift hk,Nat.add_sub_cancel,barAt_lift hk',if_neg (Nat.succ_ne_zero i),if_neg (Nat.succ_ne_zero i)]
      simp only [Bar.lift,sub_lit,abs_lit,max_lit]
      have hmax : ∀ m : ℚ, m=k.high-k'.high ∨ m=k'.low-k.low →
          m ≤ Max.max (Max.max (k.high-k.low) |k.high-k'.close|) |k.low-k'.close| := by
        intro m hm
        cases hm with
        | inl heq =>
          rw [heq]
          exact hrise.trans ((le_max_right _ _).trans (le_max_left _ _))
        | inr heq =>
          rw [heq]
          exact hfall.trans (le_max_right _ _)
      have hzero : 0 ≤ Max.max (Max.max (k.high-k.low) |k.high-k'.close|) |k.low-k'.close| :=
        (abs_nonneg _).trans (le_max_right _ _)
      cases up with
      | true =>
        simp only [if_true,lt_lit,Bool.and_eq_true,decide_eq_true_eq]
        split
        · rename_i hpos
          exact ⟨_,_,rfl,rfl,hpos.2.le,hmax _ (.inl rfl)⟩
        · exact ⟨_,_,rfl,rfl,le_rfl,hzero⟩
      | false =>
        simp only [Bool.false_eq_true,if_false,lt_lit,Bool.and_eq_true,decide_eq_true_eq]
        split
        · rename_i hpos
          exact ⟨_,_,rfl,rfl,hpos.2.le,hmax _ (.inr rfl)⟩
        · exact ⟨_,_,rfl,rfl,le_rfl,hzero⟩
    · exact .inl ⟨rfl,rfl⟩

/-- The point is blank, or of three percentages. -/
def DxPoint.Within (p : DxPoint F) : Prop :=
  Indicators.Within 0 100 p.dx ∧ Indicators.Within 0 100 p.plusDi ∧ Indicators.Within 0 100 p.minusDi

theorem dxPoint_within {t plus minus : F} (hplus : HoldBoth (fun p q => 0 ≤ p ∧ p ≤ q) plus t)
    (hminus : HoldBoth (fun p q => 0 ≤ p ∧ p ≤ q) minus t) : (dxPoint t plus minus).Within := by
  have hblank : (⟨nan,nan,nan⟩ : DxPoint F).Within := ⟨holds_nan,holds_nan,holds_nan⟩
  unfold dxPoint
  cases hplus with
  | inl hnan =>
    rw [hnan.2,isFinite_nan]
    exact hblank
  | inr hlit =>
    obtain ⟨p,t,rfl,rfl,hp,hpt⟩ := hlit
    cases hminus with
    | inl hnan =>
      rw [hnan.2,isFinite_nan]
      exact hblank
    | inr hlit =>
      obtain ⟨m,t',rfl,heq,hm,hmt⟩ := hlit
      rw [← lit_inj heq] at hmt
      rw [isFinite_lit,Bool.not_true,Bool.false_or,same_lit]
      by_cases hzero : t=0
      · rw [if_pos (decide_eq_true hzero)]
        exact hblank
      have hpos : 0<t := lt_of_le_of_ne (hp.trans hpt) (Ne.symm hzero)
      have hplus := percent_mem hp hpt hpos
      have hminus := percent_mem hm hmt hpos
      rw [if_neg (by simpa using hzero)]
      dsimp only
      rw [div_lit _ hzero,div_lit _ hzero,mul_lit,mul_lit,add_lit,sub_lit,abs_lit,same_lit]
      refine ⟨?_,holds_lit hplus,holds_lit hminus⟩
      dsimp only
      by_cases hsum : p/t*100+m/t*100=0
      · rw [if_pos (decide_eq_true hsum)]
        exact holds_lit ⟨le_rfl,by norm_num⟩
      · have hsumpos : 0<p/t*100+m/t*100 := lt_of_le_of_ne (add_nonneg hplus.1 hminus.1) (Ne.symm hsum)
        rw [if_neg (by simpa using hsum),div_lit _ hsum,mul_lit]
        have hapart : |p/t*100-m/t*100| ≤ p/t*100+m/t*100 :=
          abs_sub_le_iff.mpr ⟨by linarith [hminus.1],by linarith [hplus.1]⟩
        exact holds_lit (percent_mem (abs_nonneg _) hapart hsumpos)

theorem dxLines_within (hks : ∀ k ∈ ks, k.WellFormed) (period : ℕ) : ∀ p ∈ dxLines (lift F ks) period, p.Within := by
  intro p hp
  obtain ⟨i,hi,rfl⟩ := List.mem_iff_getElem.mp hp
  unfold dxLines at hi ⊢
  rw [List.getElem_zipWith]
  have hplus := rma_both convexBoth_le (directional_le (F := F) hks true) period
  have hminus := rma_both convexBoth_le (directional_le (F := F) hks false) period
  have hread : ∀ (xs : List F) (h : i<xs.length), xs[i]=xs.getD i nan := by
    intro xs h
    rw [List.getD_eq_getElem?_getD,List.getElem?_eq_getElem h]
    rfl
  rw [List.getElem_zip]
  dsimp only
  rw [hread,hread,hread]
  exact dxPoint_within (hplus.2 i) (hminus.2 i)

theorem adx_within (hks : ∀ k ∈ ks, k.WellFormed) (period : ℕ) :
    ∀ p ∈ adx (lift F ks) period, Within 0 100 p.adx ∧ Within 0 100 p.plusDi ∧ Within 0 100 p.minusDi := by
  intro p hp
  have hlines := dxLines_within (F := F) hks period
  obtain ⟨a,ha,l,hl,rfl⟩ := mem_zipWith hp
  have hdx : All (fun q => 0 ≤ q ∧ q ≤ 100) ((dxLines (lift F ks) period).map fun p => p.dx) := by
    apply all_iff.mpr
    intro x hx
    obtain ⟨l,hl,rfl⟩ := List.mem_map.mp hx
    exact (hlines l hl).1
  exact ⟨all_iff.mp (rma_all (convex_between 0 100) hdx period) a ha,(hlines l hl).2.1,(hlines l hl).2.2⟩

/-! `aroon`. -/

omit [ExactNumbers F] in
theorem freshest_le (beats : F → F → Bool) (w : List F) : freshest beats w ≤ w.length-1 := by
  have hfold : ∀ (js : List ℕ) (best : ℕ), best ≤ w.length-1 → (∀ j ∈ js, j<w.length) →
      js.foldl (fun best j => if beats (w.getD j nan) (w.getD best nan) then j else best) best ≤ w.length-1 := by
    intro js
    induction js with
    | nil => exact fun _ h _ => h
    | cons j js ih =>
      intro best hbest hjs
      have hj := hjs j List.mem_cons_self
      apply ih _ _ fun j hj => hjs j (List.mem_cons_of_mem _ hj)
      dsimp only
      split
      · omega
      · exact hbest
  exact hfold _ 0 (Nat.zero_le _) fun j hj => List.mem_range.mp hj

omit [Numbers F] [ExactNumbers F] in
theorem length_window_le {α : Type} (n : ℕ) (xs : List α) (i : ℕ) : (window n xs i).length ≤ n := by
  unfold window
  rw [List.length_drop,List.length_take]
  omega

/-- The two lines are percentages, and the oscillator is their difference. -/
theorem aroonPoint_within {period : ℕ} (hpos : period ≠ 0) (kls : List (Bar F)) (i : ℕ) :
    Within 0 100 (aroonPoint period kls i).up ∧ Within 0 100 (aroonPoint period kls i).down ∧
      Within (-100) 100 (aroonPoint period kls i).osc := by
  unfold aroonPoint
  split
  · exact ⟨holds_nan,holds_nan,holds_nan⟩
  rename_i hi
  have hperiod : (0 : ℚ)<period := by exact_mod_cast Nat.pos_of_ne_zero hpos
  have hline : ∀ best ≤ period, ∃ q : ℚ, (mul (div (lit ((period : ℚ)-(i-((i-period+best : ℕ) : ℚ)))) (lit period))
      (lit 100) : F)=lit q ∧ 0 ≤ q ∧ q ≤ 100 := by
    intro best hbest
    have hage : (period : ℚ)-(i-((i-period+best : ℕ) : ℚ))=best := by
      rw [Nat.cast_add,Nat.cast_sub (not_lt.mp hi)]
      ring
    refine ⟨(best : ℚ)/period*100,?_,percent_mem (Nat.cast_nonneg _) (by exact_mod_cast hbest) hperiod⟩
    rw [hage,div_lit _ hperiod.ne',mul_lit]
  have hbest : ∀ (beats : F → F → Bool) (w : List F), w.length ≤ period+1 → freshest beats w ≤ period := by
    intro beats w hw
    have hle := freshest_le beats w
    omega
  have hlen : (highs (window (period+1) kls i)).length ≤ period+1 ∧ (lows (window (period+1) kls i)).length ≤ period+1 := by
    unfold highs lows
    rw [List.length_map,List.length_map]
    exact ⟨length_window_le _ _ _,length_window_le _ _ _⟩
  obtain ⟨u,hu,hu0,hu1⟩ := hline _ (hbest (fun a b => lt b a) _ hlen.1)
  obtain ⟨d,hd,hd0,hd1⟩ := hline _ (hbest lt _ hlen.2)
  dsimp only
  rw [hu,hd,sub_lit]
  exact ⟨holds_lit ⟨hu0,hu1⟩,holds_lit ⟨hd0,hd1⟩,holds_lit ⟨by linarith,by linarith⟩⟩

/-! `percentileRank`. -/

theorem percentileRank_within (series : List F) (n : ℕ) : ∀ x ∈ percentileRank series n, Within 0 100 x := by
  apply all_iff.mp
  apply all_along
  intro i _
  dsimp only
  split
  · exact holds_nan
  · rename_i hready
    simp only [Bool.or_eq_true,decide_eq_true_eq] at hready
    push Not at hready
    have hpos : (0 : ℚ)<((window n series i).filter isFinite).length := by
      exact_mod_cast (by omega : 0<((window n series i).filter isFinite).length)
    rw [div_lit _ hpos.ne',mul_lit]
    exact holds_lit (percent_mem (Nat.cast_nonneg _) (by exact_mod_cast List.countP_le_length) hpos)

end

/-- Every value of the oscillators of the bars is a percentage, once there is one; the difference of the
two lines of `aroon` goes to both sides of zero, and its period is one at least.  The averages of
values and the spreads of the directional lines on the way are values too. -/
structure Bounded (F : Type) [Numbers F] (ks : List (Bar ℚ)) : Prop where
  rsi : ∀ period, ∀ x ∈ rsi (closes (lift F ks)) period, Within 0 100 x
  stochastic : ∀ k d smooth, ∀ p ∈ stochastic (lift F ks) k d smooth,
    Within 0 100 p.fastK ∧ Within 0 100 p.k ∧ Within 0 100 p.d
  stochRsi : ∀ period, ∀ x ∈ stochRsi (closes (lift F ks)) period, Within 0 100 x
  mfi : ∀ period, ∀ x ∈ mfi (lift F ks) period, Within 0 100 x
  adx : ∀ period, ∀ p ∈ adx (lift F ks) period,
    Within 0 100 p.adx ∧ Within 0 100 p.plusDi ∧ Within 0 100 p.minusDi
  dx : ∀ period, ∀ p ∈ dxLines (lift F ks) period, p.Within
  aroon : ∀ period, period ≠ 0 → ∀ p ∈ aroon (lift F ks) period,
    Within 0 100 p.up ∧ Within 0 100 p.down ∧ Within (-100) 100 p.osc
  percentileRank : ∀ (series : List F) window, ∀ x ∈ percentileRank series window, Within 0 100 x
  williamsR : ∀ period, ∀ x ∈ williamsR (lift F ks) period, Within (-100) 0 x
  averages : ∀ (series : List F) period, (∀ x ∈ series, Holds (fun _ => True) x) →
    (∀ x ∈ sma series period, Holds (fun _ => True) x) ∧ ∀ x ∈ rma series period, Holds (fun _ => True) x

theorem bounded {F : Type} [Numbers F] [ExactNumbers F] {ks : List (Bar ℚ)} (hks : ∀ k ∈ ks, k.WellFormed) :
    Bounded F ks where
  rsi period := by
    rw [closes_lift]
    exact rsi_within _ period
  stochastic := stochastic_within hks
  stochRsi period := by
    rw [closes_lift]
    exact stochRsi_within _ period
  mfi := mfi_within hks
  adx := adx_within hks
  dx := dxLines_within hks
  aroon := by
    intro period hpos p hp
    obtain ⟨i,-,rfl⟩ := mem_along.mp hp
    exact aroonPoint_within hpos _ i
  percentileRank := percentileRank_within
  williamsR := williamsR_within hks
  averages := by
    intro series period h
    have hconvex : Convex fun _ => True := fun _ _ _ => trivial
    exact ⟨all_iff.mp (sma_all hconvex (all_iff.mpr h) period),all_iff.mp (rma_all hconvex (all_iff.mpr h) period)⟩

/-- Over the exact numbers, and over those among which a division by zero would show. -/
theorem oscillators_bounded (ks : List (Bar ℚ)) (hks : ∀ k ∈ ks, k.WellFormed) :
    Bounded Js.Num ks ∧ Bounded Checked ks := ⟨bounded hks,bounded hks⟩

/-- Two bars of which the second falls. -/
def fallingBars : List (Bar ℚ) :=
  [{ openPrice := 10, high := 12, low := 9, close := 10, openTime := 0, volume := 1 },
    { openPrice := 10, high := 11, low := 8, close := 9, openTime := 60000, volume := 0 }]

theorem fallingBars_wellFormed : ∀ k ∈ fallingBars, k.WellFormed := by
  intro k hk
  cases hk with
  | head => exact ⟨⟨by norm_num,by norm_num,by norm_num,by norm_num⟩,by norm_num,by norm_num⟩
  | tail _ hk =>
    rw [List.mem_singleton.mp hk]
    exact ⟨⟨by norm_num,by norm_num,by norm_num,by norm_num⟩,by norm_num,by norm_num⟩

theorem oscillators_bounded_falling : Bounded Js.Num fallingBars ∧ Bounded Checked fallingBars :=
  oscillators_bounded fallingBars fallingBars_wellFormed

/-- After a fall the difference of the two lines is below zero, and a period of no bars is divided by. -/
theorem aroon_unbounded : (∃ p ∈ aroon (lift Js.Num fallingBars) 1, p.osc=.fin (-100)) ∧
    ∃ p ∈ aroon (lift Checked fallingBars) 0, p.up=.divisionByZero := by decide +kernel

end TradeGate.Indicators
