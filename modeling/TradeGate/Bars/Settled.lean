import TradeGate.Model.Indicators

/-! No indicator changes what it said about a bar when more bars come, but the parabolic stop about the
first of them. -/
namespace TradeGate.Indicators
open Series Radar Numbers

section
variable {F : Type} [Numbers F]

/-! Averages. -/

theorem online_filled : Online fun values : List F => (filled values.length : List F) := by
  intro xs n
  simp [filled,List.take_replicate]

theorem online_guard {α β : Type} {f g : List α → List β} {p : Prop} [Decidable p] (hf : Online f)
    (hg : Online g) : Online fun xs => if p then f xs else g xs := by
  by_cases h : p
  · simpa only [if_pos h] using hf
  · simpa only [if_neg h] using hg

theorem online_sma (period : ℕ) : Online fun values : List F => sma values period := by
  apply online_guard online_filled
  apply online_loop
  intro s xs i
  simp only [smaBody,getD_take,getD_take_sub]

theorem online_smooth (period : ℕ) (next : F → F → F) : Online (smooth period next) := by
  apply online_loop
  intro s xs i
  simp only [smoothBody,getD_take]

theorem online_rma (period : ℕ) : Online fun values : List F => rma values period :=
  online_guard online_filled (online_smooth period _)

/-- The seed takes as many values as the period has. -/
theorem seeding (period : ℕ) (next : F → F → F) {values : List F} {i : ℕ} (hi : i ≤ values.length) :
    (stateAt ⟨none,lit 0,0⟩ (smoothBody period next) values i).count ≤ i ∧
      (i<period → (stateAt ⟨none,lit 0,0⟩ (smoothBody period next) values i).prev=none) := by
  refine stateAt_induction (P := fun i (s : Smoothing F) => s.count ≤ i ∧ (i<period → s.prev=none))
    ⟨le_rfl,fun _ => rfl⟩ ?_ hi
  intro i s _ hs
  unfold smoothBody
  dsimp only
  split
  · exact ⟨hs.1.trans (Nat.le_succ i),fun hlt => hs.2 (Nat.lt_of_succ_lt hlt)⟩
  split
  · split
    · rename_i hcount
      refine ⟨Nat.succ_le_succ hs.1,?_⟩
      intro hlt
      have hle := hs.1
      omega
    · exact ⟨Nat.succ_le_succ hs.1,fun _ => rfl⟩
  · rename_i prev hprev
    refine ⟨hs.1.trans (Nat.le_succ i),?_⟩
    intro hlt
    rw [hs.2 (Nat.lt_of_succ_lt hlt)] at hprev
    cases hprev

theorem smoothBody_seeding {period : ℕ} {next : F → F → F} {values : List F} {i : ℕ} {s : Smoothing F}
    (hprev : s.prev=none) (hcount : s.count+1 ≠ period) : (smoothBody period next values i s).2=nan := by
  unfold smoothBody
  dsimp only
  rw [hprev]
  dsimp only
  rw [if_neg hcount]
  split <;> rfl

theorem smooth_short {period : ℕ} {next : F → F → F} {values : List F} (h : values.length<period) :
    smooth period next values=filled values.length := by
  apply List.eq_replicate_iff.mpr
  refine ⟨length_loop _ _ _,?_⟩
  intro y hy
  obtain ⟨i,hi,rfl⟩ := mem_loop.mp hy
  obtain ⟨hcount,hprev⟩ := seeding period next hi.le
  exact smoothBody_seeding (hprev (hi.trans h)) (by omega)

theorem ema_eq (values : List F) (period : ℕ) : ema values period =
    if period=0 then filled values.length
    else smooth period (fun prev v => add (mul v (div (lit 2) (lit (period+1))))
      (mul prev (sub (lit 1) (div (lit 2) (lit (period+1)))))) values := by
  unfold ema
  by_cases hzero : period=0
  · rw [if_pos (.inl hzero),if_pos hzero]
  · rw [if_neg hzero]
    by_cases hshort : values.length<period
    · rw [if_pos (.inr hshort),smooth_short hshort]
    · rw [if_neg (by simp [hzero,hshort])]

theorem online_ema (period : ℕ) : Online fun values : List F => ema values period := by
  simp only [ema_eq]
  exact online_guard online_filled (online_smooth period _)

theorem online_overWindow (period : ℕ) (g : List F → F) : Online (along (overWindow period g)) := by
  apply Causal.online
  intro xs i
  simp only [overWindow,window_take]

theorem online_wma (period : ℕ) : Online fun values : List F => wma values period :=
  online_guard online_filled (online_overWindow period _)

theorem online_dema (period : ℕ) : Online fun values : List F => dema values period :=
  (online_ema period).zipWith ((online_ema period).comp (online_ema period)) _

theorem online_tema (period : ℕ) : Online fun values : List F => tema values period := by
  have h1 : Online fun values : List F => ema values period := online_ema period
  have h2 : Online fun values : List F => ema (ema values period) period := (online_ema period).comp h1
  exact (h1.zip h2).zipWith ((online_ema period).comp h2) _

theorem online_stdev [Roots F] (period : ℕ) : Online fun values : List F => stdev values period :=
  online_overWindow period _

/-! Oscillators. -/

theorem change_take (values : List F) (i : ℕ) : change (values.take (i+1)) i=change values i := by
  rw [change,change,getD_take,getD_take_sub]

theorem online_gains : Online (gains : List F → List F) := by
  apply Causal.online
  intro xs i
  dsimp only
  rw [change_take]

theorem online_losses : Online (losses : List F → List F) := by
  apply Causal.online
  intro xs i
  dsimp only
  rw [change_take]

theorem online_rsi (period : ℕ) : Online fun cl : List F => rsi cl period :=
  ((online_rma period).comp online_gains).zipWith ((online_rma period).comp online_losses) _

theorem online_macd (fast slow signal : ℕ) : Online fun cl : List F => macd cl fast slow signal := by
  have hline : Online fun cl : List F => List.zipWith (both sub) (ema cl fast) (ema cl slow) :=
    (online_ema fast).zipWith (online_ema slow) _
  exact hline.zipWith ((online_ema signal).comp hline) _

theorem online_fastK (k : ℕ) : Online fun ks : List (Bar F) => fastK ks k := by
  apply Causal.online
  intro xs i
  simp only [closes,List.map_take,getD_take,window_take]

theorem online_stochastic (k d smooth : ℕ) : Online fun ks : List (Bar F) => stochastic ks k d smooth := by
  have hslow : Online fun ks : List (Bar F) => sma (fastK ks k) smooth := (online_sma smooth).comp (online_fastK k)
  exact ((online_fastK k).zip hslow).zipWith ((online_sma d).comp hslow) _

theorem online_stochRsi (period : ℕ) : Online fun cl : List F => stochRsi cl period := by
  apply Online.comp _ (online_rsi period)
  apply Causal.online
  intro xs i
  simp only [getD_take,window_take]

theorem online_momentum (period : ℕ) : Online fun cl : List F => momentum cl period := by
  apply Causal.online
  intro xs i
  simp only [getD_take,getD_take_sub]

theorem online_roc (period : ℕ) : Online fun cl : List F => roc cl period := by
  apply Causal.online
  intro xs i
  simp only [getD_take,getD_take_sub]

theorem online_trix (period : ℕ) : Online fun cl : List F => trix cl period := by
  have h3 : Online fun cl : List F => ema (ema (ema cl period) period) period :=
    (online_ema period).comp ((online_ema period).comp (online_ema period))
  apply Online.comp _ h3
  apply Causal.online
  intro xs i
  simp only [getD_take,getD_take_sub]

theorem barAt_take (ks : List (Bar F)) (i : ℕ) : barAt (ks.take (i+1)) i=barAt ks i := getD_take _ _ _

theorem barAt_take_sub (ks : List (Bar F)) (i p : ℕ) : barAt (ks.take (i+1)) (i-p)=barAt ks (i-p) :=
  getD_take_sub _ _ _ _

theorem online_chaikinAd : Online (chaikinAd : List (Bar F) → List F) := by
  apply online_loop
  intro s xs i
  simp only [barAt_take]

theorem online_aroon (period : ℕ) : Online fun ks : List (Bar F) => aroon ks period := by
  apply Causal.online
  intro xs i
  simp only [aroonPoint,window_take]

theorem online_typicalPrices : Online (typicalPrices : List (Bar F) → List F) := online_map _

theorem online_cci (period : ℕ) : Online fun ks : List (Bar F) => cci ks period := by
  have hzip : Online fun ks : List (Bar F) => (typicalPrices ks).zip (sma (typicalPrices ks) period) :=
    online_typicalPrices.zip ((online_sma period).comp online_typicalPrices)
  apply Online.comp _ hzip
  apply Causal.online
  intro xs i
  simp only [getD_take,window_take]

theorem online_williamsR (period : ℕ) : Online fun ks : List (Bar F) => williamsR ks period := by
  apply Causal.online
  intro xs i
  simp only [closes,List.map_take,getD_take,window_take]

theorem online_mfi (period : ℕ) : Online fun ks : List (Bar F) => mfi ks period := by
  have hzip : Online fun ks : List (Bar F) => (typicalPrices ks).zip (volumes ks) :=
    online_typicalPrices.zip (online_map _)
  apply Online.comp _ hzip
  apply Causal.online
  intro xs i
  simp only [window_take]

theorem online_obv : Online (obv : List (Bar F) → List F) := by
  apply online_loop
  intro s xs i
  simp only [barAt_take,barAt_take_sub]

/-! Ranges and channels. -/

theorem online_trueRange : Online (trueRange : List (Bar F) → List F) := by
  apply Causal.online
  intro xs i
  simp only [barAt_take,barAt_take_sub]

theorem online_atr (period : ℕ) : Online fun ks : List (Bar F) => atr ks period :=
  (online_rma period).comp online_trueRange

omit [Numbers F] in
theorem online_closes : Online (closes : List (Bar F) → List F) := online_map _

theorem online_bollinger [Roots F] (period : ℕ) (mult : F) : Online fun cl : List F => bollinger cl period mult :=
  (online_sma period).zipWith (online_stdev period) _

theorem online_keltner (period : ℕ) (mult : F) : Online fun ks : List (Bar F) => keltner ks period mult :=
  ((online_ema period).comp online_closes).zipWith (online_atr period) _

theorem online_squeeze [Roots F] (bbPeriod : ℕ) (bbMult : F) (kcPeriod : ℕ) (kcMult : F) :
    Online fun ks : List (Bar F) => squeeze ks bbPeriod bbMult kcPeriod kcMult := by
  apply Online.comp _ (((online_bollinger bbPeriod bbMult).comp online_closes).zipWith (online_keltner kcPeriod kcMult) _)
  apply online_loop
  intro s xs i
  simp only [getD_take]

theorem online_donchian (period : ℕ) : Online fun ks : List (Bar F) => donchian ks period := by
  apply Causal.online
  intro xs i
  simp only [window_take]

theorem online_directional (up : Bool) : Online (directional up : List (Bar F) → List F) := by
  apply Causal.online
  intro xs i
  simp only [barAt_take,barAt_take_sub]

theorem online_dxLines (period : ℕ) : Online fun ks : List (Bar F) => dxLines ks period :=
  (((online_rma period).comp (online_trueRange.set 0 nan)).zip ((online_rma period).comp (online_directional true))).zipWith
    ((online_rma period).comp (online_directional false)) _

theorem online_adx (period : ℕ) : Online fun ks : List (Bar F) => adx ks period :=
  ((online_rma period).comp ((online_dxLines period).map _)).zipWith (online_dxLines period) _

/-! Lines that follow a trend. -/

theorem online_supertrend (period : ℕ) (mult : F) : Online fun ks : List (Bar F) => supertrend ks period mult := by
  apply Online.comp _ (online_id.zip (online_atr period))
  apply online_loop
  intro s xs i
  simp only [supertrendBody,List.map_take,getD_take,barAt_take,barAt_take_sub]

theorem causal_psarBody (step max_ : F) (s : Sar F) : Causal fun ks i => psarBody step max_ ks i s := by
  intro xs i
  simp only [psarBody,Sar.movedAt,barAt_take,barAt_take_sub]

theorem online_midOf (period : ℕ) : Online fun ks : List (Bar F) => midOf ks period := by
  apply Causal.online
  intro xs i
  simp only [window_take]

theorem ichimoku_eq (ks : List (Bar F)) (conversion base spanB displacement : ℕ) :
    ((ichimoku ks conversion base spanB displacement).map fun p => { p with chikou := nan }) =
      along (cloudPoint displacement) (((midOf ks conversion).zip (midOf ks base)).zip
        ((List.zipWith (both fun a b => div (add a b) (lit 2)) (midOf ks conversion) (midOf ks base)).zip
          (midOf ks spanB))) := by
  unfold ichimoku
  dsimp only
  rw [List.map_map]
  conv_rhs => rw [← List.zipIdx_map_fst 0 (along _ _)]
  apply List.map_congr_left
  intro p hp
  obtain ⟨i,hi,hpoint⟩ := mem_along.mp (List.fst_mem_of_mem_zipIdx hp)
  rw [Function.comp_apply,← hpoint]
  rfl

theorem online_ichimoku (conversion base spanB displacement : ℕ) : Online fun ks : List (Bar F) =>
    (ichimoku ks conversion base spanB displacement).map fun p => { p with chikou := nan } := by
  simp only [ichimoku_eq]
  have hlines := ((online_midOf (F := F) conversion).zip (online_midOf base)).zip
    (((online_midOf conversion).zipWith (online_midOf base) (both fun a b => div (add a b) (lit 2))).zip
      (online_midOf spanB))
  apply Online.comp _ hlines
  apply Causal.online
  intro xs i
  simp only [cloudPoint,getD_take,getD_take_sub]

theorem online_vwap (anchor : VwapAnchor) : Online fun ks : List (Bar F) => vwap ks anchor := by
  apply online_loop
  intro s xs i
  have hvolumes : (volumes (xs.take (i+1))).getD i nan=(volumes xs).getD i nan := by
    rw [volumes,volumes,List.map_take,getD_take]
  have hprices : (typicalPrices (xs.take (i+1))).getD i nan=(typicalPrices xs).getD i nan := by
    rw [typicalPrices,typicalPrices,List.map_take,getD_take]
  dsimp only
  rw [vwapBody,vwapBody,hvolumes,hprices,barAt_take]

theorem online_percentileRank (window : ℕ) : Online fun series : List F => percentileRank series window := by
  apply Causal.online
  intro xs i
  simp only [getD_take,window_take]

/-! The parabolic stop. -/

theorem psarStart_take (step : F) (ks : List (Bar F)) {i : ℕ} (hi : 1 ≤ i) :
    psarStart step (ks.take (i+1))=psarStart step ks := by
  have h0 := barAt_take_sub ks i i
  have h1 := barAt_take_sub ks i (i-1)
  rw [Nat.sub_self] at h0
  rw [show i-(i-1)=1 by omega] at h1
  rw [psarStart,psarStart,h0,h1]

/-- The direction before the second bar is read off that bar. -/
theorem psar_settled_iff (ks : List (Bar F)) (step max_ : F) {i : ℕ} (hi : i<ks.length)
    (hfirst : (barAt ks 0).low ≠ nan ∧ (barAt ks 0).high ≠ nan) :
    (psar (ks.take (i+1)) step max_)[i]?=(psar ks step max_)[i]? ↔ i ≠ 0 ∨ ks.length=1 := by
  by_cases hone : ks.length=1
  · rw [List.take_of_length_le (by omega)]
    simp [hone]
  have htwo : ¬ks.length<2 := by omega
  cases i with
  | zero =>
    have hshort : (ks.take (0+1)).length<2 := by
      rw [List.length_take]
      omega
    have hwhole : (psar ks step max_)[0]?=some ⟨(psarStart step ks).sar,(psarStart step ks).dir⟩ := by
      rw [psar,if_neg htwo]
      exact getElem?_along _ hi
    have hpart : (psar (ks.take (0+1)) step max_)[0]?=some ⟨nan,.up⟩ := by
      rw [psar,if_pos hshort,List.getElem?_map,List.getElem?_take_of_lt (by omega),
        List.getElem?_eq_getElem hi]
      rfl
    have hsar : (psarStart step ks).sar ≠ nan := by
      unfold psarStart
      dsimp only
      split
      · exact hfirst.1
      · exact hfirst.2
    rw [hwhole,hpart,Option.some_inj,TrendPoint.mk.injEq]
    constructor
    · intro heq
      exact absurd heq.1.symm hsar
    · intro hor
      exact hor.elim (fun hne => absurd rfl hne) (fun heq => absurd heq hone)
  | succ i =>
    have hlong : ¬(ks.take (i+1+1)).length<2 := by
      rw [List.length_take]
      omega
    have honline : Online (loop (psarStart step ks) (psarBody step max_)) := online_loop (causal_psarBody step max_)
    have hloop := honline.getElem? ks (i+1)
    rw [psar,psar,if_neg htwo,if_neg hlong,psarStart_take step ks (by omega),hloop]
    simp

/-! Swings. -/

theorem isSwing_take (beats : F → F → Bool) (values : List F) {left right i n : ℕ} (hi : left ≤ i)
    (hn : i+right<n) : isSwing beats (values.take n) left right i=isSwing beats values left right i := by
  unfold isSwing
  rw [Bool.eq_iff_iff,List.all_eq_true,List.all_eq_true]
  apply forall_congr'
  intro j
  apply imp_congr_right
  intro hj
  obtain ⟨-,hlt⟩ := List.mem_range'_1.mp hj
  have hread : ∀ k<n, (values.take n).getD k nan=values.getD k nan := by
    intro k hk
    rw [List.getD_eq_getElem?_getD,List.getD_eq_getElem?_getD,List.getElem?_take_of_lt hk]
  rw [hread j (by omega),hread i (by omega)]

/-- The swings of a beginning are the first of all. -/
theorem swings_take (beats : F → F → Bool) (values : List F) (left right n : ℕ) :
    swings beats (values.take n) left right <+: swings beats values left right := by
  unfold swings
  have hle : (values.take n).length-right-left ≤ values.length-right-left := by
    rw [List.length_take]
    omega
  have hcongr : ((List.range' left ((values.take n).length-right-left)).filter
      (isSwing beats (values.take n) left right)).map (fun i => (i,(values.take n).getD i nan)) =
      ((List.range' left ((values.take n).length-right-left)).filter
        (isSwing beats values left right)).map (fun i => (i,values.getD i nan)) := by
    have hbound : ∀ i ∈ List.range' left ((values.take n).length-right-left), left ≤ i ∧ i+right<n := by
      intro i hi
      obtain ⟨hlo,hhi⟩ := List.mem_range'_1.mp hi
      rw [List.length_take] at hhi
      omega
    rw [List.filter_congr fun i hi => isSwing_take beats values (hbound i hi).1 (hbound i hi).2]
    apply List.map_congr_left
    intro i hi
    obtain ⟨hlo,hlt⟩ := hbound i (List.mem_filter.mp hi).1
    rw [List.getD_eq_getElem?_getD,List.getD_eq_getElem?_getD,List.getElem?_take_of_lt (by omega)]
  rw [hcongr]
  apply List.IsPrefix.map
  apply List.IsPrefix.filter
  refine ⟨List.range' (left+((values.take n).length-right-left))
    (values.length-right-left-((values.take n).length-right-left)),?_⟩
  rw [List.range'_append_1]
  congr 1
  omega

end

/-- What the series say about a bar is the same on the bars up to it as on all of them; only the
parabolic stop says something else of the first bar when there are more; and swings stay. -/
structure Settled (F : Type) [Numbers F] [Roots F] : Prop where
  sma : ∀ period, Online fun values : List F => sma values period
  ema : ∀ period, Online fun values : List F => ema values period
  wma : ∀ period, Online fun values : List F => wma values period
  dema : ∀ period, Online fun values : List F => dema values period
  tema : ∀ period, Online fun values : List F => tema values period
  rma : ∀ period, Online fun values : List F => rma values period
  stdev : ∀ period, Online fun values : List F => stdev values period
  rsi : ∀ period, Online fun cl : List F => rsi cl period
  macd : ∀ fast slow signal, Online fun cl : List F => macd cl fast slow signal
  stochastic : ∀ k d smooth, Online fun ks : List (Bar F) => stochastic ks k d smooth
  stochRsi : ∀ period, Online fun cl : List F => stochRsi cl period
  momentum : ∀ period, Online fun cl : List F => momentum cl period
  roc : ∀ period, Online fun cl : List F => roc cl period
  trix : ∀ period, Online fun cl : List F => trix cl period
  chaikinAd : Online (chaikinAd : List (Bar F) → List F)
  aroon : ∀ period, Online fun ks : List (Bar F) => aroon ks period
  cci : ∀ period, Online fun ks : List (Bar F) => cci ks period
  williamsR : ∀ period, Online fun ks : List (Bar F) => williamsR ks period
  mfi : ∀ period, Online fun ks : List (Bar F) => mfi ks period
  obv : Online (obv : List (Bar F) → List F)
  trueRange : Online (trueRange : List (Bar F) → List F)
  atr : ∀ period, Online fun ks : List (Bar F) => atr ks period
  bollinger : ∀ period (mult : F), Online fun cl : List F => bollinger cl period mult
  keltner : ∀ period (mult : F), Online fun ks : List (Bar F) => keltner ks period mult
  squeeze : ∀ bbPeriod (bbMult : F) kcPeriod kcMult,
    Online fun ks : List (Bar F) => squeeze ks bbPeriod bbMult kcPeriod kcMult
  donchian : ∀ period, Online fun ks : List (Bar F) => donchian ks period
  adx : ∀ period, Online fun ks : List (Bar F) => adx ks period
  supertrend : ∀ period (mult : F), Online fun ks : List (Bar F) => supertrend ks period mult
  psar : ∀ (ks : List (Bar F)) step max_ i, i<ks.length → (barAt ks 0).low ≠ nan ∧ (barAt ks 0).high ≠ nan →
    ((psar (ks.take (i+1)) step max_)[i]?=(psar ks step max_)[i]? ↔ i ≠ 0 ∨ ks.length=1)
  ichimoku : ∀ conversion base spanB displacement, Online fun ks : List (Bar F) =>
    (ichimoku ks conversion base spanB displacement).map fun p => { p with chikou := nan }
  vwap : ∀ anchor, Online fun ks : List (Bar F) => vwap ks anchor
  percentileRank : ∀ window, Online fun series : List F => percentileRank series window
  highs : ∀ (ks : List (Bar F)) left right n,
    (swingPoints (ks.take n) left right).highs <+: (swingPoints ks left right).highs
  lows : ∀ (ks : List (Bar F)) left right n,
    (swingPoints (ks.take n) left right).lows <+: (swingPoints ks left right).lows

theorem indicators_settled (F : Type) [Numbers F] [Roots F] : Settled F where
  sma := online_sma
  ema := online_ema
  wma := online_wma
  dema := online_dema
  tema := online_tema
  rma := online_rma
  stdev := online_stdev
  rsi := online_rsi
  macd := online_macd
  stochastic := online_stochastic
  stochRsi := online_stochRsi
  momentum := online_momentum
  roc := online_roc
  trix := online_trix
  chaikinAd := online_chaikinAd
  aroon := online_aroon
  cci := online_cci
  williamsR := online_williamsR
  mfi := online_mfi
  obv := online_obv
  trueRange := online_trueRange
  atr := online_atr
  bollinger := online_bollinger
  keltner := online_keltner
  squeeze := online_squeeze
  donchian := online_donchian
  adx := online_adx
  supertrend := online_supertrend
  psar := fun ks step max_ _ hi hfirst => psar_settled_iff ks step max_ hi hfirst
  ichimoku := online_ichimoku
  vwap := online_vwap
  percentileRank := online_percentileRank
  highs := by
    intro ks left right n
    unfold swingPoints
    dsimp only
    rw [Indicators.highs,List.map_take]
    exact swings_take _ _ left right n
  lows := by
    intro ks left right n
    unfold swingPoints
    dsimp only
    rw [Indicators.lows,List.map_take]
    exact swings_take _ _ left right n

/-- Two bars, of which the second closes higher. -/
def risingBars : List (Bar Js.Num) :=
  [{ openPrice := .fin 10, high := .fin 11, low := .fin 9, close := .fin 10, openTime := 0, volume := .fin 1 },
    { openPrice := .fin 10, high := .fin 12, low := .fin 10, close := .fin 11, openTime := 60000, volume := .fin 1 }]

/-- What the stop says of the first bar alone is not what it says once the second is there. -/
theorem psar_unsettled : (psar (risingBars.take (0+1)) (.fin 0.02) (.fin 0.2))[0]? ≠
    (psar risingBars (.fin 0.02) (.fin 0.2))[0]? := by decide +kernel

end TradeGate.Indicators
