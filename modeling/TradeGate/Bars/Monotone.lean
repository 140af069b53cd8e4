import TradeGate.Model.Evaluate

/-! More permissive thresholds let through what stricter ones do, in the same direction. -/
namespace TradeGate.Radar
open Numbers

/-- The same bound, or a larger one. -/
def AtMost (a b : Js.Num) : Prop := a=b ∨ a.lt b

/-- Each field is the same or more permissive. -/
structure Permissive (th' th : BarThresholds Js.Num) : Prop where
  breakoutLevel : th'.breakoutLevel=th.breakoutLevel
  atrFloorMult : th'.atrFloorMult ≤ th.atrFloorMult
  chaseAtrMax : AtMost th.chaseAtrMax th'.chaseAtrMax
  retestVolMin : AtMost th'.retestVolMin th.retestVolMin
  volMode : th.volMode=.either → th'.volMode=.either
  trendMode : th.trendMode=.h1Veto → th'.trendMode=.h1Veto
  h4VetoAtr : AtMost th.h4VetoAtr th'.h4VetoAtr
  breakoutWindow : AtMost th.breakoutWindow th'.breakoutWindow
  rangeVolMin : AtMost th'.rangeVolMin th.rangeVolMin
  fundingAbsMax : AtMost th.fundingAbsMax th'.fundingAbsMax
  requireTrendRegime : th'.requireTrendRegime=true → th.requireTrendRegime=true

section
variable {m : BarMetrics Js.Num DailyRegimeKind} {th th' : BarThresholds Js.Num} {d : Direction}
  {a b c : Js.Num}

theorem AtMost.le_left (h : AtMost a b) (hc : le b c=true) : le a c=true := by
  have hbc : b.le c := of_decide_eq_true hc
  apply decide_eq_true
  cases h with
  | inl heq => rwa [heq]
  | inr hlt => exact Js.Num.le_trans (.inl hlt) hbc

theorem AtMost.le_right (h : AtMost b c) (ha : le a b=true) : le a c=true := by
  have hab : a.le b := of_decide_eq_true ha
  apply decide_eq_true
  cases h with
  | inl heq => rwa [← heq]
  | inr hlt => exact Js.Num.le_trans hab (.inl hlt)

theorem AtMost.lt_left (h : AtMost a b) (hc : lt b c=true) : lt a c=true := by
  have hbc : b.lt c := of_decide_eq_true hc
  apply decide_eq_true
  cases h with
  | inl heq => rwa [heq]
  | inr hlt => exact Js.Num.lt_trans hlt hbc

theorem AtMost.lt_right (h : AtMost b c) (ha : lt a b=true) : lt a c=true := by
  have hab : a.lt b := of_decide_eq_true ha
  apply decide_eq_true
  cases h with
  | inl heq => rwa [← heq]
  | inr hlt => exact Js.Num.lt_trans hab hlt

/-- A lower multiple of a floor that is not negative is no higher. -/
theorem atMost_mul {p x y : ℚ} (hp : 0 ≤ p) (h : x ≤ y) :
    AtMost (mul (Js.Num.fin p) (lit x)) (mul (Js.Num.fin p) (lit y)) := by
  have hle : p*x ≤ p*y := mul_le_mul_of_nonneg_left h hp
  cases lt_or_eq_of_le hle with
  | inl hlt => exact .inr hlt
  | inr heq => exact .inl (congrArg Js.Num.fin heq)

/-- The veto of stricter thresholds includes that of the more permissive ones. -/
theorem vetoed_mono (h : Permissive th' th) (hv : vetoed m th' d=true) : vetoed m th d=true := by
  unfold vetoed at hv ⊢
  rw [Bool.and_eq_true] at hv ⊢
  exact ⟨hv.1,h.h4VetoAtr.lt_left hv.2⟩

/-- 4h does not veto the direction in which it is itself. -/
theorem not_vetoed (h : m.dirH4=some d) : vetoed m th d=false := by
  unfold vetoed
  simp [h]

theorem dirTrend_mono (h : Permissive th' th) (hd : dirTrend m th=some d) : dirTrend m th'=some d := by
  unfold dirTrend at hd ⊢
  cases hmode : th.trendMode with
  | h1Veto =>
    rw [hmode] at hd
    obtain ⟨hh1,hveto⟩ := Option.filter_eq_some_iff.mp hd
    rw [h.trendMode hmode]
    refine Option.filter_eq_some_iff.mpr ⟨hh1,?_⟩
    cases hv : vetoed m th' d with
    | false => rfl
    | true =>
      rw [vetoed_mono h hv] at hveto
      cases hveto
  | both =>
    rw [hmode] at hd
    dsimp only at hd
    split at hd
    · rename_i heq
      cases th'.trendMode with
      | both =>
        dsimp only
        rwa [if_pos heq]
      | h1Veto =>
        refine Option.filter_eq_some_iff.mpr ⟨hd,?_⟩
        rw [not_vetoed (heq ▸ hd)]
        rfl
    · cases hd

theorem recent_mono (h : Permissive th' th) (hr : recent m th d=true) : recent m th' d=true := by
  unfold recent at hr ⊢
  rw [Bool.and_eq_true] at hr ⊢
  exact ⟨hr.1,h.breakoutWindow.lt_right hr.2⟩

theorem breakoutOf_mono (h : Permissive th' th) (hb : breakoutOf m th d=true) : breakoutOf m th' d=true := by
  unfold breakoutOf at hb ⊢
  rw [h.breakoutLevel]
  cases hlevel : th.breakoutLevel with
  | self =>
    rw [hlevel] at hb
    cases d <;> exact hb
  | prior =>
    rw [hlevel] at hb
    cases d <;> exact recent_mono h hb

theorem volOk_mono (h : Permissive th' th) (hv : volOk m th d=true) : volOk m th' d=true := by
  unfold volOk at hv ⊢
  rw [Bool.or_eq_true] at hv ⊢
  cases hv with
  | inl hnow => exact .inl (h.retestVolMin.le_left hnow)
  | inr hbreak =>
    rw [Bool.and_eq_true,Bool.and_eq_true] at hbreak
    obtain ⟨⟨hmode,hrecent⟩,hvol⟩ := hbreak
    rw [h.volMode (eq_of_beq hmode),recent_mono h hrecent]
    obtain ⟨v,hv,hle⟩ := (Option.any_eq_true _ _).mp hvol
    rw [(Option.any_eq_true _ _).mpr ⟨v,hv,h.retestVolMin.le_left hle⟩]
    exact .inr rfl

theorem regimeOk_mono (h : Permissive th' th) (hr : regimeOk m th d=true) : regimeOk m th' d=true := by
  have hreq : th.requireTrendRegime=false → th'.requireTrendRegime=false := by
    intro hno
    by_contra hyes
    rw [h.requireTrendRegime (eq_true_of_ne_false hyes)] at hno
    cases hno
  unfold regimeOk at hr ⊢
  cases hm : m.regime with
  | none =>
    rw [hm] at hr
    rw [hreq (Bool.not_eq_true' _ |>.mp hr)]
    rfl
  | some regime =>
    rw [hm] at hr
    cases regime with
    | bear => cases d <;> exact hr
    | bull => cases d <;> exact hr
    | volatile =>
      dsimp only at hr ⊢
      rw [hreq (Bool.not_eq_true' _ |>.mp hr)]
      rfl
    | range =>
      dsimp only at hr ⊢
      rw [Bool.and_eq_true,Bool.not_eq_true'] at hr
      rw [hreq hr.1,h.rangeVolMin.le_left hr.2]
      rfl

theorem levelOf_eq (h : Permissive th' th) : levelOf m th' d=levelOf m th d := by
  unfold levelOf
  rw [h.breakoutLevel]

theorem passOf_mono (h : Permissive th' th) {p : ℚ} (hp : 0 ≤ p) (hfloor : m.atrFloor=.fin p)
    (hpass : (passOf m th d).all=true) (htrend : (dirTrend m th').isSome=true) : (passOf m th' d).all=true := by
  simp only [Conditions.all,Bool.and_eq_true] at hpass ⊢
  obtain ⟨⟨⟨⟨⟨⟨hatr,-⟩,hchase⟩,hbreak⟩,hvol⟩,hfunding⟩,hregime⟩ := hpass
  refine ⟨⟨⟨⟨⟨⟨?_,htrend⟩,?_⟩,breakoutOf_mono h hbreak⟩,volOk_mono h hvol⟩,?_⟩,regimeOk_mono h hregime⟩
  · have hlower := atMost_mul hp h.atrFloorMult
    rw [← hfloor] at hlower
    exact hlower.le_left hatr
  · have hdist : distAtrOf m th' d=distAtrOf m th d := by
      unfold distAtrOf
      rw [levelOf_eq h]
    change le (distAtrOf m th' d) th'.chaseAtrMax=true
    rw [hdist]
    exact h.chaseAtrMax.le_right hchase
  · change m.fundingAbsPct.all _=true
    change m.fundingAbsPct.all _=true at hfunding
    cases hm : m.fundingAbsPct with
    | none => rfl
    | some v =>
      rw [hm] at hfunding
      exact h.fundingAbsMax.le_right hfunding

theorem dirOf_eq (h : dirTrend m th=some d) : dirOf m th=d := by
  unfold dirOf
  rw [h]
  rfl

theorem joint_mono (h : Permissive th' th) {p : ℚ} (hp : 0 ≤ p) (hfloor : m.atrFloor=.fin p)
    (hjoint : (evaluateBar m th).joint=true) :
    (evaluateBar m th').joint=true ∧ (evaluateBar m th').dir=(evaluateBar m th).dir := by
  have hpass : (passOf m th (dirOf m th)).all=true := hjoint
  have hsome : (dirTrend m th).isSome=true := by
    have hall := hpass
    simp only [Conditions.all,Bool.and_eq_true] at hall
    exact hall.1.1.1.1.1.2
  obtain ⟨d,hd⟩ := Option.isSome_iff_exists.mp hsome
  have hd' := dirTrend_mono h hd
  have hdir := dirOf_eq hd
  have hdir' := dirOf_eq hd'
  rw [hdir] at hpass
  constructor
  · change (passOf m th' (dirOf m th')).all=true
    rw [hdir']
    exact passOf_mono h hp hfloor hpass (Option.isSome_iff_exists.mpr ⟨d,hd'⟩)
  · exact hdir'.trans hdir.symm

end

/-! The rows of `computeMetrics`. -/
section
variable {R : Type} {dailyRegime : List Bar → ℚ → Option R} {s : SeriesBundle} {tf : String} {from_ to_ : ℚ}

theorem atrPctFloor_nonneg (tf : String) : 0 ≤ Checklist.atrPctFloor tf := by
  unfold Checklist.atrPctFloor
  cases hlist : Checklist.atrPctFloors.lookup tf with
  | some q =>
    obtain ⟨before,after,heq,-⟩ := List.lookup_eq_some_iff.mp hlist
    have hall : ∀ p ∈ Checklist.atrPctFloors, 0 ≤ p.2 := by decide +kernel
    exact hall (tf,q) (heq ▸ List.mem_append_right _ List.mem_cons_self)
  | none =>
    cases Checklist.tfToMs tf with
    | none =>
      change (0 : ℚ) ≤ 0.3
      norm_num
    | some ms => exact div_nonneg (Nat.cast_nonneg _) (by norm_num)

theorem atrFloor_step {l : Loop Js.Num R} (h : ∀ row ∈ l.rows, row.1.atrFloor=.fin (Checklist.atrPctFloor tf))
    (i : ℕ) : ∀ row ∈ (step dailyRegime s tf from_ to_ l i).rows,
      row.1.atrFloor=.fin (Checklist.atrPctFloor tf) := by
  intro row hrow
  unfold step at hrow
  dsimp only at hrow
  split at hrow
  · cases List.mem_append.mp hrow with
    | inl hold => exact h row hold
    | inr hnew =>
      rw [List.mem_singleton.mp hnew]
      rfl
  · exact h row hrow

/-- Every row carries the floor of its timeframe. -/
theorem atrFloor_of_mem {row : BarMetrics Js.Num R × ℕ} (h : row ∈ computeMetrics dailyRegime s tf from_ to_) :
    row.1.atrFloor=.fin (Checklist.atrPctFloor tf) := by
  have hrows : ∀ (is : List ℕ) (l : Loop Js.Num R),
      (∀ row ∈ l.rows, row.1.atrFloor=.fin (Checklist.atrPctFloor tf)) →
      ∀ row ∈ (is.foldl (step dailyRegime s tf from_ to_) l).rows,
        row.1.atrFloor=.fin (Checklist.atrPctFloor tf) := by
    intro is
    induction is with
    | nil => exact fun l hl => hl
    | cons i is ih => exact fun l hl => ih _ (atrFloor_step hl i)
  exact hrows _ {} (by simp) row h

end

/-- A row of any series that passes under some thresholds passes under any that are more permissive, in
the same direction; so does every row whose floor is not negative. -/
theorem evaluateBar_mono (th th' : BarThresholds Js.Num) (h : Permissive th' th) :
    (∀ (dailyRegime : List Bar → ℚ → Option DailyRegimeKind) s tf from_ to_,
      ∀ row ∈ computeMetrics dailyRegime s tf from_ to_, (evaluateBar row.1 th).joint=true →
        (evaluateBar row.1 th').joint=true ∧ (evaluateBar row.1 th').dir=(evaluateBar row.1 th).dir) ∧
    ∀ (m : BarMetrics Js.Num DailyRegimeKind) (p : ℚ), 0 ≤ p → m.atrFloor=.fin p →
      (evaluateBar m th).joint=true →
        (evaluateBar m th').joint=true ∧ (evaluateBar m th').dir=(evaluateBar m th).dir := by
  constructor
  · intro dailyRegime s tf from_ to_ row hrow hjoint
    exact joint_mono h (atrPctFloor_nonneg tf) (atrFloor_of_mem hrow) hjoint
  · intro m p hp hfloor hjoint
    exact joint_mono h hp hfloor hjoint

/-- A bar that closes above its last twenty highs on twice the usual volume. -/
def breakRow : BarMetrics Js.Num DailyRegimeKind where
  t := 0
  close := .fin 101
  atr := .fin 1
  atrPct := .fin 0.99
  atrFloor := .fin 0.15
  hi20 := .fin 101
  lo20 := .fin 95
  hi20Prev := .fin 100
  lo20Prev := .fin 95
  volRatio := .fin 2
  ema20 := .fin 98
  dirH1 := some .long
  dirH4 := some .long
  h4DistAtr := some (.fin 1)
  regime := some .range
  fundingAbsPct := some (.fin 0.01)
  brokeUp := true
  brokeDown := false
  barsSinceUp := 0
  barsSinceDown := -1
  breakVolUp := some (.fin 2)
  breakVolDown := none

theorem evaluateBar_mono_breakRow :
    (evaluateBar breakRow { currentThresholds with breakoutLevel := .prior }).joint=true ∧
    (evaluateBar breakRow { currentThresholds with
      breakoutLevel := .prior, trendMode := .h1Veto, chaseAtrMax := .fin 2 }).joint=true := by
  have hjoint : (evaluateBar breakRow { currentThresholds with breakoutLevel := .prior }).joint=true := by
    decide +kernel
  have hpermissive : Permissive
      { currentThresholds with breakoutLevel := .prior, trendMode := .h1Veto, chaseAtrMax := .fin 2 }
      { currentThresholds with breakoutLevel := .prior } :=
    { breakoutLevel := rfl
      atrFloorMult := le_rfl
      chaseAtrMax := .inr (by decide +kernel)
      retestVolMin := .inl rfl
      volMode := id
      trendMode := fun _ => rfl
      h4VetoAtr := .inl rfl
      breakoutWindow := .inl rfl
      rangeVolMin := .inl rfl
      fundingAbsMax := .inl rfl
      requireTrendRegime := id }
  exact ⟨hjoint,((evaluateBar_mono _ _ hpermissive).2 breakRow 0.15 (by norm_num) rfl hjoint).1⟩

end TradeGate.Radar
