import TradeGate.Bars.Exact

/-! The parabolic stop is outside of a bar unless the bar is outside of the trend on both sides. -/
namespace TradeGate.Indicators
open Series Radar Numbers ExactNumbers

section
variable {F : Type} [Numbers F]

/-- The stop is not above the low of the bar in a rising trend, nor below its high in a falling one. -/
def TrendPoint.Outside (p : TrendPoint F) (k : Bar F) : Prop :=
  match p.dir with
  | .up => le p.value k.low=true
  | .down => le k.high p.value=true

/-- The bar breaks the moved stop, and goes beyond the extreme point of the trend as well. -/
def Sar.Engulfs (k : Bar F) (sar : F) (s : Sar F) : Prop :=
  match s.dir with
  | .up => lt k.low sar=true ∧ lt s.ep k.high=true
  | .down => lt sar k.high=true ∧ lt k.low s.ep=true

instance (k : Bar F) (sar : F) (s : Sar F) : Decidable (s.Engulfs k sar) := by
  unfold Sar.Engulfs
  split <;> infer_instance

/-- The stop, the extreme point and the acceleration are rationals. -/
def Sar.Exact (s : Sar F) : Prop := ∃ sar ep af : ℚ, s.sar=lit sar ∧ s.ep=lit ep ∧ s.af=lit af

variable [ExactNumbers F] {ks : List (Bar ℚ)} {step max_ : ℚ} {s : Sar F} {k k' k'' : Bar ℚ} {i : ℕ}

theorem Sar.Exact.moved (h : s.Exact) : ∃ sar : ℚ, s.moved (k'.lift F) (k''.lift F)=lit sar := by
  obtain ⟨sar,ep,af,hsar,hep,haf⟩ := h
  unfold Sar.moved
  rw [hsar,hep,haf,sub_lit,mul_lit,add_lit]
  cases s.dir with
  | up => exact ⟨_,by simp only [Bar.lift,min_lit]; rfl⟩
  | down => exact ⟨_,by simp only [Bar.lift,max_lit]; rfl⟩

theorem Sar.Exact.next (h : s.Exact) (sar : ℚ) : (s.next (lit step) (lit max_) (k.lift F) (lit sar)).Exact := by
  obtain ⟨old,ep,af,hsar,hep,haf⟩ := h
  unfold Sar.next
  cases s.dir with
  | up =>
    dsimp only
    split
    · exact ⟨_,_,_,hep,rfl,rfl⟩
    split
    · exact ⟨_,_,_,rfl,rfl,by dsimp only; rw [haf,add_lit,min_lit]⟩
    · exact ⟨_,_,_,rfl,hep,haf⟩
  | down =>
    dsimp only
    split
    · exact ⟨_,_,_,hep,rfl,rfl⟩
    split
    · exact ⟨_,_,_,rfl,rfl,by dsimp only; rw [haf,add_lit,min_lit]⟩
    · exact ⟨_,_,_,rfl,hep,haf⟩

/-- A round puts the stop outside of the bar, if the bar does not engulf the trend. -/
theorem Sar.Exact.outside_iff (h : s.Exact) (step max_ sar : ℚ) :
    (TrendPoint.mk (s.next (lit step) (lit max_) (k.lift F) (lit sar)).sar
      (s.next (lit step) (lit max_) (k.lift F) (lit sar)).dir).Outside (k.lift F) ↔ ¬s.Engulfs (k.lift F) (lit sar) := by
  obtain ⟨old,ep,af,hsar,hep,haf⟩ := h
  unfold Sar.next Sar.Engulfs TrendPoint.Outside
  cases hdir : s.dir with
  | up =>
    simp only [Bar.lift,hep,lt_lit,decide_eq_true_eq]
    by_cases hbreak : k.low<sar
    · simp only [if_pos hbreak,le_lit,decide_eq_true_eq,not_and,not_lt]
      exact ⟨fun hle _ => hle,fun himp => himp hbreak⟩
    · have hle : sar ≤ k.low := not_lt.mp hbreak
      by_cases hext : ep<k.high
      · simp [hbreak,hext,le_lit,hle]
      · simp [hbreak,hext,le_lit,hle]
  | down =>
    simp only [Bar.lift,hep,lt_lit,decide_eq_true_eq]
    by_cases hbreak : sar<k.high
    · simp only [if_pos hbreak,le_lit,decide_eq_true_eq,not_and,not_lt]
      exact ⟨fun hle _ => hle,fun himp => himp hbreak⟩
    · have hle : k.high ≤ sar := not_lt.mp hbreak
      by_cases hext : k.low<ep
      · simp [hbreak,hext,le_lit,hle]
      · simp [hbreak,hext,le_lit,hle]

omit [ExactNumbers F] in
theorem psarStart_exact (hlen : 2 ≤ ks.length) : (psarStart (lit step) (lift F ks)).Exact := by
  obtain ⟨k,hk⟩ := getElem?_of_lt_length (show 0<ks.length by omega)
  unfold psarStart
  rw [barAt_lift hk]
  dsimp only
  split
  · exact ⟨_,_,_,rfl,rfl,rfl⟩
  · exact ⟨_,_,_,rfl,rfl,rfl⟩

/-- The loop starts with the stop at the edge of the first bar. -/
theorem psarStart_outside (step : ℚ) (hk : ks[0]?=some k) :
    (TrendPoint.mk (psarStart (lit step) (lift F ks)).sar (psarStart (lit step) (lift F ks)).dir).Outside (k.lift F) := by
  unfold psarStart
  rw [barAt_lift hk]
  dsimp only
  by_cases hdir : le (k.lift F).close (barAt (lift F ks) 1).close=true
  · rw [if_pos hdir]
    exact (le_lit k.low k.low).trans (decide_eq_true le_rfl)
  · rw [if_neg hdir]
    exact (le_lit k.high k.high).trans (decide_eq_true le_rfl)

theorem Sar.Exact.movedAt (h : s.Exact) (hi : i<ks.length) : ∃ sar : ℚ, s.movedAt (lift F ks) i=lit sar := by
  obtain ⟨k',hk'⟩ := getElem?_of_lt_length (show i-1<ks.length by omega)
  obtain ⟨k'',hk''⟩ := getElem?_of_lt_length (show i-2<ks.length by omega)
  unfold Sar.movedAt
  rw [barAt_lift hk',barAt_lift hk'']
  split
  · exact h.moved
  · exact h.moved

/-- What the loop carries before a bar. -/
def sarBefore (ks : List (Bar F)) (step max_ : F) (i : ℕ) : Sar F :=
  stateAt (psarStart step ks) (psarBody step max_) ks i

theorem psarBody_exact (h : s.Exact) (hi : i<ks.length) : (psarBody (lit step) (lit max_) (lift F ks) i s).1.Exact := by
  unfold psarBody
  dsimp only
  split
  · exact h
  · obtain ⟨k,hk⟩ := getElem?_of_lt_length hi
    obtain ⟨sar,hsar⟩ := h.movedAt hi
    rw [hsar,barAt_lift hk]
    exact h.next sar

theorem sarBefore_exact (hlen : 2 ≤ ks.length) (hi : i ≤ ks.length) :
    (sarBefore (lift F ks) (lit step) (lit max_) i).Exact := by
  refine stateAt_induction (P := fun _ (s : Sar F) => s.Exact) (psarStart_exact hlen) ?_ (by rwa [length_lift])
  intro i s hi hs
  rw [length_lift] at hi
  exact psarBody_exact hs hi

end

/-- The stop of a bar is outside of it unless, after the first bar, the bar breaks the moved stop and goes
beyond the extreme point of the trend as well. -/
theorem psar_outside_iff (ks : List (Bar ℚ)) (step max_ : ℚ) (hlen : 2 ≤ ks.length) (i : ℕ) (hi : i<ks.length) :
    let bars := lift Js.Num ks
    let before := sarBefore bars (.fin step) (.fin max_) i
    ∃ p, (psar bars (.fin step) (.fin max_))[i]?=some p ∧
      (p.Outside (barAt bars i) ↔ ¬(i ≠ 0 ∧ before.Engulfs (barAt bars i) (before.movedAt bars i))) := by
  intro bars before
  have hshort : ¬bars.length<2 := by
    rw [length_lift]
    omega
  obtain ⟨k,hk⟩ := getElem?_of_lt_length hi
  have hexact : before.Exact := sarBefore_exact hlen hi.le
  refine ⟨(psarBody (.fin step) (.fin max_) bars i before).2,?_,?_⟩
  · rw [psar,if_neg hshort]
    exact getElem?_along _ (by rwa [length_lift])
  unfold psarBody
  dsimp only
  by_cases hzero : i=0
  · subst hzero
    rw [if_pos rfl]
    have houtside := psarStart_outside (F := Js.Num) step hk
    rw [← barAt_lift hk] at houtside
    exact iff_of_true houtside fun h => h.1 rfl
  · obtain ⟨sar,hsar⟩ := hexact.movedAt hi
    rw [if_neg hzero,hsar,barAt_lift hk]
    have houtside := hexact.outside_iff (k := k) step max_ sar
    exact houtside.trans (not_congr (and_iff_right hzero).symm)

/-- A rise, and then a bar that is higher and lower than all before. -/
def engulfedBars : List (Bar ℚ) :=
  [{ openPrice := 10, high := 11, low := 9, close := 10, openTime := 0, volume := 1 },
    { openPrice := 10, high := 12, low := 10, close := 11, openTime := 60000, volume := 1 },
    { openPrice := 11, high := 13, low := 8, close := 10, openTime := 120000, volume := 1 }]

/-- The stop of the last bar is the high before it, and the bar goes above that. -/
theorem psar_inside : (psar (lift Js.Num engulfedBars) (.fin 0.02) (.fin 0.2))[2]?=some ⟨.fin 12,.down⟩ ∧
    ¬(TrendPoint.mk (.fin 12) .down).Outside (barAt (lift Js.Num engulfedBars) 2) := by
  constructor
  · decide +kernel
  · unfold TrendPoint.Outside
    decide +kernel

/-- A rise that breaks, and a bar of the fall after it. -/
def turnedBars : List (Bar ℚ) :=
  [{ openPrice := 10, high := 11, low := 9, close := 10, openTime := 0, volume := 1 },
    { openPrice := 10, high := 12, low := 10, close := 11, openTime := 60000, volume := 1 },
    { openPrice := 11, high := 11, low := 7, close := 8, openTime := 120000, volume := 1 },
    { openPrice := 8, high := 9, low := 6, close := 7, openTime := 180000, volume := 1 }]

/-- The stop turns at the third bar, and is outside of that and of the next. -/
theorem psar_outside_iff_falling :
    psar (lift Js.Num turnedBars) (.fin 0.02) (.fin 0.2)=[⟨.fin 9,.up⟩,⟨.fin 9,.up⟩,⟨.fin 12,.down⟩,⟨.fin 12,.down⟩] ∧
    (TrendPoint.mk (.fin 12) .down).Outside (barAt (lift Js.Num turnedBars) 2) ∧
    (TrendPoint.mk (.fin 12) .down).Outside (barAt (lift Js.Num turnedBars) 3) := by
  have hline : psar (lift Js.Num turnedBars) (.fin 0.02) (.fin 0.2)=[⟨.fin 9,.up⟩,⟨.fin 9,.up⟩,⟨.fin 12,.down⟩,
      ⟨.fin 12,.down⟩] := by decide +kernel
  have hcalm : ∀ i ∈ [2,3], ¬(i ≠ 0 ∧ (sarBefore (lift Js.Num turnedBars) (.fin 0.02) (.fin 0.2) i).Engulfs
      (barAt (lift Js.Num turnedBars) i)
        ((sarBefore (lift Js.Num turnedBars) (.fin 0.02) (.fin 0.2) i).movedAt (lift Js.Num turnedBars) i)) := by
    decide +kernel
  obtain ⟨p,hp,hturn⟩ := psar_outside_iff turnedBars 0.02 0.2 (by decide) 2 (by decide)
  obtain ⟨q,hq,hnext⟩ := psar_outside_iff turnedBars 0.02 0.2 (by decide) 3 (by decide)
  rw [hline] at hp hq
  cases hp
  cases hq
  exact ⟨hline,hturn.mpr (hcalm 2 (by decide)),hnext.mpr (hcalm 3 (by decide))⟩

end TradeGate.Indicators
