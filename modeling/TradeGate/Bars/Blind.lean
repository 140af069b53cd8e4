import TradeGate.Model.BarMetrics

/-! A row of the metrics is computed of what is known when its bar closes: nothing later changes it. -/
namespace TradeGate.Radar
open Series Numbers

/-! Every measurement looks back. -/
section
variable {F : Type} [Numbers F]

theorem causal_read (field : Bar → String) : Causal (read (F := F) field) :=
  (causal_getD {}).map fun _ bar => ofText (field bar)

theorem causal_trueRange : Causal (trueRange (F := F)) := by
  have hprev : Causal fun bars i => read (F := F) Bar.close bars (i-1) :=
    (causal_read Bar.close).earlier fun i => Nat.sub_le i 1
  have hrange := ((causal_read (F := F) Bar.high).map₂ (causal_read Bar.low) fun _ => Prod.mk).map₂ hprev
    fun i hl pc => if i=0 then lit 0 else max (max (sub hl.1 hl.2) (abs (sub hl.1 pc))) (abs (sub hl.2 pc))
  exact hrange

theorem causal_rollingAtr (period : ℕ) : Causal fun bars i => rollingAtr (F := F) bars period i := by
  have hsum : Causal (rangeSum (F := F) period) := by
    apply causal_accumulate
    intro sum
    have hout : Causal fun bars i => trueRange (F := F) bars (i-period) :=
      causal_trueRange.earlier fun i => Nat.sub_le i period
    exact causal_trueRange.map₂ hout fun i tr out =>
      if period < i then sub (add sum tr) out else add sum tr
  exact hsum.map fun i sum => if i=0 ∨ i<period then lit 0 else div sum (lit period)

theorem causal_rollingExtreme (n : ℕ) (high inclusive : Bool) :
    Causal fun bars i => rollingExtreme (F := F) bars n high inclusive i := by
  refine causal_window (fun _ (window : List Bar) => if window=[] then (nan : F)
    else if high then (window.map fun bar => ofText bar.high).foldl max negInfinity
    else (window.map fun bar => ofText bar.low).foldl min infinity)
    (fun i => if inclusive then i+1 else i) (fun i => (if inclusive then i+1 else i)-n) ?_
  intro i
  cases inclusive with
  | true => exact Nat.le_refl _
  | false => exact Nat.le_succ i

theorem causal_rollingVolRatio (n : ℕ) : Causal fun bars i => rollingVolRatio (F := F) bars n i := by
  have hwindow : Causal fun bars i => (bars.take i).drop (i-n) :=
    causal_window (fun _ (window : List Bar) => window) id (fun i => i-n) Nat.le_succ
  exact hwindow.map₂ (causal_read Bar.volume) fun i (window : List Bar) (volume : F) =>
    let sum := (window.map fun bar => ofText bar.volume).foldl add (lit 0)
    let avg := div sum (lit (Nat.max 1 window.length))
    if i=0 then lit 1 else if lt (lit 0) avg then div volume avg else lit 1

theorem causal_windowedEma (window period : ℕ) :
    Causal fun bars i => windowedEma (F := F) bars window period i :=
  causal_window (fun _ (window : List Bar) => (ema (window.map fun bar => ofText bar.close) period).getLastD nan)
    (fun i => i+1) (fun i => i+1-window) fun _ => Nat.le_refl _

theorem causal_windowedEmaDir (window : ℕ) : Causal fun bars i => windowedEmaDir F bars window i :=
  (causal_windowedEma window 20).map₂ (causal_windowedEma window 50) fun _ (a b : F) =>
    if lt b a then some Direction.long else if lt a b then some Direction.short else none

theorem causal_brokeUp : Causal (brokeUp F) :=
  (causal_rollingExtreme 20 true false).map₂ (causal_read Bar.close) fun _ (level close : F) =>
    isFinite level && lt level close

theorem causal_brokeDown : Causal (brokeDown F) :=
  (causal_rollingExtreme 20 false false).map₂ (causal_read Bar.close) fun _ (level close : F) =>
    isFinite level && lt close level

theorem causal_h4Dist : Causal (h4Dist (F := F)) :=
  ((causal_read Bar.close).map₂ (causal_windowedEma 80 20) fun _ => Prod.mk).map₂ (causal_rollingAtr 14)
    fun _ (read : F × F) atr => if lt (lit 0) atr then some (div (abs (sub read.1 read.2)) atr) else none

end

/-! What is known at a time. -/
section
variable {t u : ℚ} {bars bars' : List Bar} {points points' : List FundingPoint} {β : Type}

/-- Sorted by the times at which the bars close. -/
def Ordered (bars : List Bar) : Prop := bars.Pairwise fun b b' => b.closeTime ≤ b'.closeTime

/-- The bars that are closed at the time. -/
def closedBy (t : ℚ) (bars : List Bar) : List Bar := bars.filter fun bar => bar.closeTime ≤ t

def OrderedPoints (points : List FundingPoint) : Prop := points.Pairwise fun p p' => p.at_ ≤ p'.at_

/-- The funding up to the time. -/
def paidBy (t : ℚ) (points : List FundingPoint) : List FundingPoint := points.filter fun point => point.at_ ≤ t

theorem filter_le_filter_le {α : Type} {time : α → ℚ} (h : t ≤ u) (xs : List α) :
    (xs.filter fun x => time x ≤ u).filter (fun x => time x ≤ t)=xs.filter fun x => time x ≤ t := by
  rw [List.filter_filter]
  apply List.filter_congr
  intro x _
  by_cases ht : time x ≤ t
  · simp [ht,ht.trans h]
  · simp [ht]

theorem initial_closed (h : Ordered bars) (t : ℚ) : Initial (fun bar => decide (bar.closeTime ≤ t)) bars :=
  h.imp fun hle ht => decide_eq_true (hle.trans (of_decide_eq_true ht))

theorem initial_paid (h : OrderedPoints points) (t : ℚ) :
    Initial (fun point => decide (point.at_ ≤ t)) points :=
  h.imp fun hle ht => decide_eq_true (hle.trans (of_decide_eq_true ht))

/-- A series as known at a time is known so at any time before. -/
theorem closedBy_congr (h : closedBy u bars=closedBy u bars') (ht : t ≤ u) :
    closedBy t bars=closedBy t bars' := by
  have hfilter := congrArg (closedBy t) h
  unfold closedBy at hfilter ⊢
  rwa [filter_le_filter_le ht,filter_le_filter_le ht] at hfilter

theorem paidBy_congr (h : paidBy u points=paidBy u points') (ht : t ≤ u) :
    paidBy t points=paidBy t points' := by
  have hfilter := congrArg (paidBy t) h
  unfold paidBy at hfilter ⊢
  rwa [filter_le_filter_le ht,filter_le_filter_le ht] at hfilter

/-- What is computed at the last closed bar is the same for series that are known alike. -/
theorem closed_congr {f : List Bar → ℕ → β} (hf : Causal f) (ho : Ordered bars) (ho' : Ordered bars')
    (h : closedBy u bars=closedBy u bars') (ht : t ≤ u) :
    (lastClosedIndex bars t).map (f bars)=(lastClosedIndex bars' t).map (f bars') :=
  hf.lastIndex_congr (initial_closed ho t) (initial_closed ho' t) (closedBy_congr h ht)

theorem closed_bind_congr {f : List Bar → ℕ → Option β} (hf : Causal f) (ho : Ordered bars)
    (ho' : Ordered bars') (h : closedBy u bars=closedBy u bars') (ht : t ≤ u) :
    (lastClosedIndex bars t).bind (f bars)=(lastClosedIndex bars' t).bind (f bars') := by
  have hjoin : ∀ (o : Option ℕ) (g : ℕ → Option β), (o.map g).join=o.bind g := by
    intro o g
    cases o <;> rfl
  rw [← hjoin,← hjoin,closed_congr hf ho ho' h ht]

theorem paid_congr {f : List FundingPoint → ℕ → β} (hf : Causal f) (ho : OrderedPoints points)
    (ho' : OrderedPoints points') (h : paidBy u points=paidBy u points') (ht : t ≤ u) :
    (lastFundingIndex points t).map (f points)=(lastFundingIndex points' t).map (f points') :=
  hf.lastIndex_congr (initial_paid ho t) (initial_paid ho' t) (paidBy_congr h ht)

end

namespace SeriesBundle

/-- Each series is sorted by time. -/
structure Sorted (s : SeriesBundle) : Prop where
  base : Ordered s.base
  h1 : Ordered s.h1
  h4 : Ordered s.h4
  d1 : Ordered s.d1
  funding : OrderedPoints s.funding

/-- The bundles hold the same bars that are closed at the time, and the same funding up to it. -/
structure Coincide (u : ℚ) (a b : SeriesBundle) : Prop where
  base : closedBy u a.base=closedBy u b.base
  h1 : closedBy u a.h1=closedBy u b.h1
  h4 : closedBy u a.h4=closedBy u b.h4
  d1 : closedBy u a.d1=closedBy u b.d1
  funding : paidBy u a.funding=paidBy u b.funding

end SeriesBundle

/-! One bar. -/
section
variable {F R : Type} [Numbers F] {dailyRegime : List Bar → ℚ → Option R} {a b : SeriesBundle} {tf : String}
  {from_ to_ t u : ℚ} {i : ℕ}

theorem regimeAt_congr (ha : a.Sorted) (hb : b.Sorted) (h : a.Coincide u b) (ht : t ≤ u)
    (cache : List (ℕ × Option R)) : regimeAt dailyRegime a cache t=regimeAt dailyRegime b cache t := by
  have hdaily : Causal fun (bars : List Bar) i => (i,(bars.take (i+1)).drop (i-259)) :=
    causal_window (fun i window => (i,window)) (fun i => i+1) (fun i => i-259) fun _ => Nat.le_refl _
  have heq := closed_congr hdaily ha.d1 hb.d1 h.d1 ht
  unfold regimeAt
  cases hia : lastClosedIndex a.d1 t with
  | none =>
    cases hib : lastClosedIndex b.d1 t with
    | none => rfl
    | some j =>
      rw [hia,hib,Option.map_none,Option.map_some] at heq
      cases heq
  | some i =>
    cases hib : lastClosedIndex b.d1 t with
    | none =>
      rw [hia,hib,Option.map_none,Option.map_some] at heq
      cases heq
    | some j =>
      rw [hia,hib,Option.map_some,Option.map_some,Option.some_inj,Prod.mk.injEq] at heq
      obtain ⟨rfl,hwindow⟩ := heq
      dsimp only
      rw [hwindow]

/-- The bar is among those that are known. -/
abbrev Known (u : ℚ) (s : SeriesBundle) (i : ℕ) : Prop :=
  i<(s.base.filter fun bar => bar.closeTime ≤ u).length

theorem base_congr {β : Type} {f : List Bar → ℕ → β} (hf : Causal f) (ha : a.Sorted) (hb : b.Sorted)
    (h : a.Coincide u b) (hi : Known u a i) : f a.base i=f b.base i := by
  apply hf.congr
  have hta := (initial_closed ha.base u).filter_eq_take
  have htb := (initial_closed hb.base u).filter_eq_take
  have htake := hta.symm.trans (h.base.trans htb)
  have hlen := congrArg List.length h.base
  unfold closedBy at hlen
  rw [← hlen] at htake
  exact take_congr htake hi

theorem closeTime_le (ha : a.Sorted) (hi : Known u a i) : (a.base.getD i {}).closeTime ≤ u := by
  have hany := (initial_closed ha.base u).holds_iff i
  rw [decide_eq_true hi] at hany
  rw [List.getD_eq_getElem?_getD]
  cases hget : a.base[i]? with
  | none =>
    rw [hget] at hany
    cases hany
  | some bar =>
    rw [hget] at hany
    exact of_decide_eq_true hany

theorem lt_closeTime (ha : a.Sorted) (hi : ¬Known u a i) (hlt : i<a.base.length) :
    u<(a.base.getD i {}).closeTime := by
  have hany := (initial_closed ha.base u).holds_iff i
  rw [decide_eq_false hi] at hany
  rw [List.getD_eq_getElem?_getD,List.getElem?_eq_getElem hlt] at *
  exact not_le.mp (of_decide_eq_false hany)

/-- A row is the same, whose last breaks are among the known bars. -/
theorem rowAt_congr (ha : a.Sorted) (hb : b.Sorted) (h : a.Coincide u b) (hi : Known u a i)
    {lastUp lastDown : Option ℕ} (hup : ∀ k ∈ lastUp, Known u a k) (hdown : ∀ k ∈ lastDown, Known u a k)
    (regime : Option R) :
    rowAt (F := F) a tf i lastUp lastDown regime=rowAt b tf i lastUp lastDown regime := by
  have ht := closeTime_le ha hi
  have htime : (a.base.getD i {}).closeTime=(b.base.getD i {}).closeTime :=
    congrArg Bar.closeTime (base_congr (causal_getD {}) ha hb h hi)
  have hvol : ∀ {k}, Known u a k → rollingVolRatio (F := F) a.base 20 k=rollingVolRatio b.base 20 k :=
    fun hk => base_congr (causal_rollingVolRatio 20) ha hb h hk
  have hbreak : ∀ {last : Option ℕ}, (∀ k ∈ last, Known u a k) →
      last.map (rollingVolRatio (F := F) a.base 20)=last.map (rollingVolRatio b.base 20) := by
    intro last hlast
    cases last with
    | none => rfl
    | some k => exact congrArg some (hvol (hlast k rfl))
  have hextreme : ∀ high inclusive,
      rollingExtreme (F := F) a.base 20 high inclusive i=rollingExtreme b.base 20 high inclusive i :=
    fun high inclusive => base_congr (causal_rollingExtreme 20 high inclusive) ha hb h hi
  have hrate : Causal fun (points : List FundingPoint) k =>
      mul (Numbers.abs (ofText (points.getD k default).rate)) (lit (F := F) 100) :=
    (causal_getD default).map fun _ (point : FundingPoint) => mul (Numbers.abs (ofText point.rate)) (lit 100)
  unfold rowAt
  dsimp only
  rw [← htime,base_congr (causal_read Bar.close) ha hb h hi,base_congr (causal_rollingAtr 14) ha hb h hi,
    hextreme,hextreme,hextreme,hextreme,hvol hi,base_congr (causal_windowedEma 60 20) ha hb h hi,
    closed_bind_congr (causal_windowedEmaDir 120) ha.h1 hb.h1 h.h1 ht,
    closed_bind_congr (causal_windowedEmaDir 80) ha.h4 hb.h4 h.h4 ht,
    closed_bind_congr causal_h4Dist ha.h4 hb.h4 h.h4 ht,paid_congr hrate ha.funding hb.funding h.funding ht,
    base_congr causal_brokeUp ha hb h hi,base_congr causal_brokeDown ha hb h hi,hbreak hup,hbreak hdown]

theorem measured_congr (ha : a.Sorted) (hb : b.Sorted) (h : a.Coincide u b) (hi : Known u a i) :
    measured a F from_ to_ i=measured b F from_ to_ i := by
  unfold measured
  dsimp only
  rw [base_congr (causal_getD {}) ha hb h hi,
    base_congr (causal_rollingExtreme (F := F) 20 true false) ha hb h hi,
    base_congr (causal_rollingAtr (F := F) 14) ha hb h hi,
    base_congr (causal_read (F := F) Bar.close) ha hb h hi]

/-- The last breaks are before the position. -/
def Loop.Behind (l : Loop F R) (i : ℕ) : Prop := (∀ k ∈ l.lastUp, k < i) ∧ ∀ k ∈ l.lastDown, k < i

theorem lastUp_step (l : Loop F R) : (step dailyRegime a tf from_ to_ l i).lastUp =
    if brokeUp F a.base i then some i else l.lastUp := by
  unfold step
  dsimp only
  split <;> rfl

theorem lastDown_step (l : Loop F R) : (step dailyRegime a tf from_ to_ l i).lastDown =
    if brokeDown F a.base i then some i else l.lastDown := by
  unfold step
  dsimp only
  split <;> rfl

theorem last_lt {broke : Bool} {last : Option ℕ} (h : ∀ k ∈ last, k < i) :
    ∀ k ∈ if broke then some i else last, k < i+1 := by
  intro k hk
  cases broke with
  | true =>
    cases hk
    exact Nat.lt_succ_self _
  | false => exact Nat.lt_succ_of_lt (h k hk)

theorem Loop.Behind.step {l : Loop F R} (h : l.Behind i) :
    (step dailyRegime a tf from_ to_ l i).Behind (i+1) := by
  constructor
  · rw [lastUp_step]
    exact last_lt h.1
  · rw [lastDown_step]
    exact last_lt h.2

/-- A known bar is treated alike. -/
theorem step_congr (ha : a.Sorted) (hb : b.Sorted) (h : a.Coincide u b) (hi : Known u a i) {l : Loop F R}
    (hl : l.Behind i) : step dailyRegime a tf from_ to_ l i=step dailyRegime b tf from_ to_ l i := by
  have hup : ∀ k ∈ if brokeUp F a.base i then some i else l.lastUp, Known u a k := fun k hk =>
    lt_of_le_of_lt (Nat.le_of_lt_succ (last_lt hl.1 k hk)) hi
  have hdown : ∀ k ∈ if brokeDown F a.base i then some i else l.lastDown, Known u a k := fun k hk =>
    lt_of_le_of_lt (Nat.le_of_lt_succ (last_lt hl.2 k hk)) hi
  have htime : (a.base.getD i {}).closeTime=(b.base.getD i {}).closeTime :=
    congrArg Bar.closeTime (base_congr (causal_getD {}) ha hb h hi)
  unfold Radar.step
  dsimp only
  rw [measured_congr ha hb h hi,rowAt_congr ha hb h hi hup hdown,htime,
    regimeAt_congr ha hb h (htime ▸ closeTime_le ha hi),base_congr causal_brokeUp ha hb h hi,
    base_congr causal_brokeDown ha hb h hi]

/-- The loop over the first bars. -/
def loopTo (dailyRegime : List Bar → ℚ → Option R) (s : SeriesBundle) (tf : String) (from_ to_ : ℚ) (n : ℕ) :
    Loop F R := (List.range n).foldl (step dailyRegime s tf from_ to_) {}

theorem loopTo_succ (n : ℕ) : loopTo (F := F) dailyRegime a tf from_ to_ (n+1) =
    step dailyRegime a tf from_ to_ (loopTo dailyRegime a tf from_ to_ n) n := by
  unfold loopTo
  rw [List.range_succ,List.foldl_append]
  rfl

theorem behind_loopTo (n : ℕ) : (loopTo (F := F) dailyRegime a tf from_ to_ n).Behind n := by
  induction n with
  | zero =>
    constructor
    · intro k hk
      cases hk
    · intro k hk
      cases hk
  | succ n ih =>
    rw [loopTo_succ]
    exact ih.step

/-- Over known bars the loops run alike. -/
theorem loopTo_congr (ha : a.Sorted) (hb : b.Sorted) (h : a.Coincide u b) {n : ℕ}
    (hn : n ≤ (closedBy u a.base).length) :
    loopTo (F := F) dailyRegime a tf from_ to_ n=loopTo dailyRegime b tf from_ to_ n := by
  induction n with
  | zero => rfl
  | succ n ih =>
    rw [loopTo_succ,loopTo_succ,ih (Nat.le_of_succ_le hn)]
    exact step_congr ha hb h hn (behind_loopTo n)

/-- The rows of the bars that are closed at the time. -/
def rowsBy (u : ℚ) (rows : List (BarMetrics F R × ℕ)) : List (BarMetrics F R × ℕ) :=
  rows.filter fun row => row.1.t ≤ u

/-- A bar that is not known adds no row that is. -/
theorem rowsBy_step (l : Loop F R) (hi : u<(a.base.getD i {}).closeTime) :
    rowsBy u (step dailyRegime a tf from_ to_ l i).rows=rowsBy u l.rows := by
  unfold step
  dsimp only
  split
  · unfold rowsBy
    rw [List.filter_append,List.filter_cons_of_neg,List.filter_nil,List.append_nil]
    exact fun hle => not_lt.mpr (of_decide_eq_true hle) hi
  · rfl

theorem rowsBy_loopTo (ha : a.Sorted) {n : ℕ} (hn : (closedBy u a.base).length ≤ n)
    (hlen : n ≤ a.base.length) : rowsBy u (loopTo (F := F) dailyRegime a tf from_ to_ n).rows =
      rowsBy u (loopTo dailyRegime a tf from_ to_ (closedBy u a.base).length).rows := by
  induction n, hn using Nat.le_induction with
  | base => rfl
  | succ n hn ih =>
    rw [loopTo_succ,rowsBy_step _ (lt_closeTime ha (not_lt.mpr hn) hlen),ih (Nat.le_of_succ_le hlen)]

/-- Bundles that coincide in what is known at a time have one list of rows up to it, whatever comes
later, whatever range is asked for, and however the daily regime is read off its bars. -/
theorem metrics_blind (dailyRegime : List Bar → ℚ → Option R) (a b : SeriesBundle) (tf : String)
    (from_ to_ u : ℚ) (ha : a.Sorted) (hb : b.Sorted) (h : a.Coincide u b) :
    rowsBy u (computeMetrics (F := F) dailyRegime a tf from_ to_) =
      rowsBy u (computeMetrics dailyRegime b tf from_ to_) := by
  have hlen := congrArg List.length h.base
  change rowsBy u (loopTo dailyRegime a tf from_ to_ a.base.length).rows =
    rowsBy u (loopTo dailyRegime b tf from_ to_ b.base.length).rows
  rw [rowsBy_loopTo ha (List.length_filter_le _ _) le_rfl,rowsBy_loopTo hb (List.length_filter_le _ _) le_rfl,
    ← hlen,loopTo_congr ha hb h le_rfl]

end

/-- Bars of a minute at 100 whose last closes elsewhere. -/
def sampleBars (n : ℕ) (close : String) : List Bar :=
  (List.range n).map (fun i => ⟨i*60000,"100","101","99","100","1",i*60000+59999⟩)++
    [⟨n*60000,"100","120","80",close,"5",n*60000+59999⟩]

def sampleBundle (close : String) : SeriesBundle := ⟨sampleBars 22 close,[],[],[],[]⟩

theorem sampleBundle_sorted (close : String) : (sampleBundle close).Sorted where
  base := by
    have htimes : ((List.range 23).map fun i : ℕ => (i*60000+59999 : ℚ)).Pairwise (· ≤ ·) := by decide +kernel
    exact List.pairwise_map.mp htimes
  h1 := List.Pairwise.nil
  h4 := List.Pairwise.nil
  d1 := List.Pairwise.nil
  funding := List.Pairwise.nil

theorem metrics_blind_sample :
    rowsBy 1319999 (computeMetrics (F := Js.Num) (R := String) (fun _ _ => none) (sampleBundle "120") "1m" 0 2000000) =
      rowsBy 1319999 (computeMetrics (fun _ _ => none) (sampleBundle "80") "1m" 0 2000000) :=
  metrics_blind _ _ _ _ _ _ _ (sampleBundle_sorted _) (sampleBundle_sorted _)
    ⟨by decide +kernel,rfl,rfl,rfl,rfl⟩

end TradeGate.Radar
