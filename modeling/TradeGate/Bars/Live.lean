import Mathlib.Algebra.BigOperators.Group.Finset.Basic
import TradeGate.Bars.Blind
import TradeGate.Bars.Exact
import TradeGate.Model.Features

/-! The row of a bar is what the features say of the closed bars that end at it. -/
namespace TradeGate.Radar
open Series Numbers Indicators Indicators.ExactNumbers Market

section
variable {α : Type} (xs : List α) {a b n : ℕ}

theorem getD_drop_take {i : ℕ} (h : a+i<b) (d : α) : ((xs.take b).drop a).getD i d=xs.getD (a+i) d := by
  rw [List.getD_eq_getElem?_getD,List.getElem?_drop,List.getElem?_take,if_pos h,← List.getD_eq_getElem?_getD]

/-- The last of the first `n` elements, counted from the front. -/
theorem lastOf_take (hn : n ≤ xs.length) (k : ℕ) : lastOf k (xs.take n)=(xs.take n).drop (n-k) := by
  rw [lastOf,List.length_take,Nat.min_eq_left hn]

theorem length_lastOf (k : ℕ) : (lastOf k xs).length=min k xs.length := by
  rw [lastOf,List.length_drop]
  omega

/-- A window within a longer one. -/
theorem lastOf_lastOf {j k : ℕ} (h : j ≤ k) : lastOf j (lastOf k xs)=lastOf j xs := by
  unfold lastOf
  rw [List.drop_drop,List.length_drop]
  congr 1
  omega

/-- The window without its last element. -/
theorem slice_lastOf {j k : ℕ} (h : j < k) : ((lastOf k xs).take ((lastOf k xs).length-1)).drop
    ((lastOf k xs).length-(j+1))=(xs.take (xs.length-1)).drop (xs.length-(j+1)) := by
  have hlen := length_lastOf xs k
  rw [lastOf] at hlen ⊢
  rw [List.take_drop,List.drop_drop,hlen]
  congr 1
  · omega
  · congr 1
    omega

theorem getLast?_lastOf {k : ℕ} (hk : 0 < k) : (lastOf k xs).getLast?=xs.getLast? := by
  rw [lastOf]
  by_cases hxs : xs=[]
  · rw [hxs,List.drop_nil]
  · rw [List.getLast?_drop,if_neg]
    have hpos := List.length_pos_of_ne_nil hxs
    omega

end

/-! The sum that slides. -/
section
variable {F : Type} [Numbers F] [ExactNumbers F] {bars : List Bar} {q : ℕ → ℚ} {i : ℕ}

theorem foldl_add_range (f : ℕ → ℚ) (n : ℕ) : ((List.range n).map fun j => (lit (f j) : F)).foldl add (lit 0) =
    lit (∑ j ∈ Finset.range n, f j) := by
  induction n with
  | zero => rfl
  | succ n ih =>
    rw [List.range_succ,List.map_append,List.foldl_append,ih,Finset.sum_range_succ]
    exact add_lit _ _

/-- The sum is what has come in less what has gone out. -/
theorem rangeSum_eq (hq : ∀ j<bars.length, trueRange bars j=(lit (q j) : F)) (hi : i<bars.length) (period : ℕ) :
    rangeSum period bars i=(lit (∑ j ∈ Finset.range (i+1), q j-∑ j ∈ Finset.range (i-period+1), q j) : F) := by
  induction i with
  | zero =>
    rw [Nat.zero_sub,sub_self]
    rfl
  | succ i ih =>
    have hprev := ih (Nat.lt_of_succ_lt hi)
    change (if period < i+1 then sub (add (rangeSum period bars i) (trueRange bars (i+1)))
      (trueRange bars (i+1-period)) else add (rangeSum period bars i) (trueRange bars (i+1)))=_
    rw [hprev,hq _ hi,hq _ (by omega : i+1-period<bars.length),add_lit,sub_lit,Finset.sum_range_succ _ (i+1)]
    by_cases hout : period < i+1
    · rw [if_pos hout,show i+1-period=i-period+1 by omega,Finset.sum_range_succ _ (i-period+1)]
      congr 1
      ring
    · rw [if_neg hout,show i+1-period=i-period by omega]
      congr 1
      ring

end

/-! Each measurement is the feature of its window. -/
section
variable {bars : List Bar} {i : ℕ}

/-- The prices of the bar are numbers. -/
def Bar.Quoted (k : Bar) : Prop :=
  ∃ h l c : ℚ, ofText k.high=(lit h : Js.Num) ∧ ofText k.low=(lit l : Js.Num) ∧ ofText k.close=(lit c : Js.Num)

theorem trueRange_quoted (h : ∀ k ∈ bars, k.Quoted) (hi : i<bars.length) :
    ∃ q : ℚ, trueRange bars i=(lit q : Js.Num) := by
  have hread : ∀ {j}, j<bars.length → (bars.getD j {}).Quoted := by
    intro j hj
    rw [List.getD_eq_getElem?_getD,List.getElem?_eq_getElem hj]
    exact h _ (List.getElem_mem hj)
  obtain ⟨hh,hl,-,eh,el,-⟩ := hread hi
  obtain ⟨-,-,hc,-,-,ec⟩ := hread (show i-1<bars.length by omega)
  unfold trueRange
  by_cases hzero : i=0
  · exact ⟨0,if_pos hzero⟩
  · rw [if_neg hzero]
    unfold read
    dsimp only
    rw [eh,el,ec,sub_lit,sub_lit,sub_lit,abs_lit,abs_lit,max_lit,max_lit]
    exact ⟨_,rfl⟩

/-- The closed bars that end at the position, as many as are looked at. -/
def windowAt (n : ℕ) (bars : List Bar) (i : ℕ) : List Bar := lastOf n (bars.take (i+1))

theorem trueRange_windowAt {n j : ℕ} (hi : i<bars.length) (hj : 0 < j) (hlen : i+1-n+j ≤ i) :
    trueRange (windowAt n bars i) j=(trueRange bars (i+1-n+j) : Js.Num) := by
  have hread : ∀ {k} (field : Bar → String), i+1-n+k ≤ i →
      read field (windowAt n bars i) k=(read field bars (i+1-n+k) : Js.Num) := by
    intro k field hk
    unfold read windowAt
    rw [lastOf_take bars hi,getD_drop_take bars (Nat.lt_succ_of_le hk)]
  unfold trueRange
  rw [if_neg (Nat.pos_iff_ne_zero.mp hj),if_neg (by omega),hread _ hlen,hread _ hlen,hread _ (by omega),
    show i+1-n+(j-1)=i+1-n+j-1 by omega]

/-- The mean of the ranges that slide is the mean of the last of them. -/
theorem rollingAtr_eq (h : ∀ k ∈ bars, k.Quoted) (hi : i<bars.length) {n period : ℕ} (hpos : 0<period)
    (hperiod : period ≤ i) (hn : period < n) : rollingAtr bars period i=Market.atr (windowAt n bars i) period := by
  choose! q hq using fun j (hj : j<bars.length) => trueRange_quoted h hj
  have hlen : (windowAt n bars i).length=min n (i+1) := by
    rw [windowAt,length_lastOf,List.length_take,Nat.min_eq_left hi]
  have htail : lastOf period ((List.range ((windowAt n bars i).length-1)).map fun j =>
      (trueRange (windowAt n bars i) (j+1) : Js.Num)) =
        (List.range period).map fun j => (lit (q (i-period+1+j)) : Js.Num) := by
    apply List.ext_getElem
    · rw [length_lastOf,List.length_map,List.length_range,hlen,List.length_map,List.length_range]
      omega
    · intro j hj hj'
      rw [List.length_map,List.length_range] at hj'
      simp only [lastOf,List.getElem_drop,List.getElem_map,List.getElem_range,List.length_map,List.length_range]
      rw [hlen,trueRange_windowAt hi (Nat.succ_pos _) (by omega),← hq _ (by omega)]
      congr 1
      omega
  have hsum : ∑ j ∈ Finset.range (i+1), q j-∑ j ∈ Finset.range (i-period+1), q j =
      ∑ j ∈ Finset.range period, q (i-period+1+j) := by
    rw [show i+1=i-period+1+period by omega,Finset.sum_range_add,add_sub_cancel_left]
  unfold rollingAtr Market.atr
  rw [if_neg (by omega),rangeSum_eq hq hi,hsum]
  dsimp only
  rw [htail,foldl_add_range,List.length_map,List.length_range,if_neg]
  rw [List.map_eq_nil_iff,List.range_eq_nil]
  exact Nat.pos_iff_ne_zero.mp hpos

theorem windowAt_eq (hi : i<bars.length) (n : ℕ) : windowAt n bars i=(bars.take (i+1)).drop (i+1-n) :=
  lastOf_take bars hi n

theorem lastOf_windowAt {j n : ℕ} (h : j ≤ n) : lastOf j (windowAt n bars i)=windowAt j bars i :=
  lastOf_lastOf _ h

theorem prev_windowAt (hi : i<bars.length) {j n : ℕ} (h : j < n) : ((windowAt n bars i).take
    ((windowAt n bars i).length-1)).drop ((windowAt n bars i).length-(j+1))=(bars.take i).drop (i-j) := by
  unfold windowAt
  rw [slice_lastOf _ h,List.length_take,show min (i+1) bars.length=i+1 from Nat.min_eq_left hi,Nat.add_sub_cancel,List.take_take,
    Nat.min_eq_left (Nat.le_succ i),Nat.add_sub_add_right]

theorem ne_nil_windowAt (hi : i<bars.length) {n : ℕ} (hn : 0 < n) : windowAt n bars i ≠ [] := by
  apply List.ne_nil_of_length_pos
  rw [windowAt,length_lastOf,List.length_take,Nat.min_eq_left hi]
  omega

theorem rollingExtreme_inclusive (hi : i<bars.length) {n k : ℕ} (hn : 0 < n) (hk : n ≤ k) :
    rollingExtreme bars n true true i=highest (lastOf n (windowAt k bars i)) ∧
      rollingExtreme bars n false true i=lowest (lastOf n (windowAt k bars i)) := by
  have hne := ne_nil_windowAt hi hn
  rw [lastOf_windowAt hk]
  rw [windowAt_eq hi] at hne ⊢
  exact ⟨if_neg hne,if_neg hne⟩

theorem rollingExtreme_prior (hi : i<bars.length) (hpos : 0 < i) {n k : ℕ} (hn : 0 < n) (hk : n < k) :
    let prev := ((windowAt k bars i).take ((windowAt k bars i).length-1)).drop ((windowAt k bars i).length-(n+1))
    prev ≠ [] ∧ rollingExtreme bars n true false i=highest prev ∧
      rollingExtreme bars n false false i=lowest prev := by
  have hne : (bars.take i).drop (i-n) ≠ [] := by
    apply List.ne_nil_of_length_pos
    rw [List.length_drop,List.length_take]
    omega
  rw [prev_windowAt hi hk]
  exact ⟨hne,if_neg hne,if_neg hne⟩

theorem rollingVolRatio_eq (tf : String) (hi : i<bars.length) (hpos : 0 < i) {n : ℕ} (hn : 20 < n) :
    rollingVolRatio bars 20 i=(featuresOf tf (windowAt n bars i) (bars.getD i {})).volRatio20 := by
  have hlen : (windowAt n bars i).length=min n (i+1) := by
    rw [windowAt,length_lastOf,List.length_take,Nat.min_eq_left hi]
  have hcount : Nat.max 1 ((bars.take i).drop (i-20)).length =
      Nat.max 1 (Nat.min 20 ((windowAt n bars i).length-1)) := by
    rw [hlen,List.length_drop,List.length_take,Nat.min_eq_left (Nat.le_of_lt hi)]
    congr 1
    change i-(i-20)=min 20 (min n (i+1)-1)
    omega
  unfold rollingVolRatio featuresOf
  dsimp only
  rw [if_neg (Nat.pos_iff_ne_zero.mp hpos),List.length_map,← List.map_take,← List.map_drop,prev_windowAt hi hn,hcount]
  rfl

end

/-! The features of a window of closed bars. -/
section
variable {bars : List Bar} {i n : ℕ} {t now : ℚ}

theorem tfFeatures_nil (tf : String) : tfFeatures now tf []=none := by
  unfold tfFeatures
  dsimp only
  rw [List.filter_nil,ite_self]
  rfl

theorem tfFeatures_closed (tf : String) (hi : i<bars.length) (hn : 0 < n)
    (hclosed : ∀ k ∈ windowAt n bars i, k.closeTime ≤ now) : tfFeatures now tf (windowAt n bars i) =
      some (featuresOf tf (windowAt n bars i) (bars.getD i {})) := by
  have hlast : (windowAt n bars i).getLast?=some (bars.getD i {}) := by
    rw [windowAt,getLast?_lastOf _ hn,List.getLast?_take,if_neg (Nat.succ_ne_zero i),Nat.add_sub_cancel,
      List.getElem?_eq_getElem hi,List.getD_eq_getElem?_getD,List.getElem?_eq_getElem hi]
    rfl
  unfold tfFeatures
  dsimp only
  rw [List.filter_eq_self.mpr fun k hk => decide_eq_true (hclosed k hk),ite_self,hlast]
  rfl

/-- Bars are closed when a later one is. -/
theorem closed_of_ordered (ho : Ordered bars) (hi : i<bars.length) (ht : (bars.getD i {}).closeTime ≤ now) :
    ∀ k ∈ windowAt n bars i, k.closeTime ≤ now := by
  intro k hk
  obtain ⟨j,hj,rfl⟩ := List.mem_take_iff_getElem.mp (List.mem_of_mem_drop hk)
  rw [List.getD_eq_getElem?_getD,List.getElem?_eq_getElem hi] at ht
  have hle : j ≤ i := Nat.le_of_lt_succ (lt_of_lt_of_le hj (Nat.min_le_left _ _))
  cases hle.lt_or_eq with
  | inl hlt => exact (List.pairwise_iff_getElem.mp ho j i _ hi hlt).trans ht
  | inr heq =>
    subst heq
    exact ht

/-- The side of the averages is the direction that the features have. -/
theorem windowedEmaDir_eq (tf : String) (hi : i<bars.length) : windowedEmaDir Js.Num bars n i =
    Checklist.tfDirection (some (featuresOf tf (windowAt n bars i) (bars.getD i {})).toChecklist) := by
  unfold windowedEmaDir windowedEma
  rw [← windowAt_eq hi]
  change (if decide (Js.Num.lt _ _)=true then some Direction.long
    else if decide (Js.Num.lt _ _)=true then some .short else none)=_
  simp only [decide_eq_true_eq]
  rfl

/-- So it is for the bars that are closed at a time; where none is, there is no direction. -/
theorem direction_eq (tf : String) (ho : Ordered bars) (hn : 0 < n) (ht : t ≤ now) :
    (lastClosedIndex bars t).bind (windowedEmaDir Js.Num bars n) = Checklist.tfDirection
      ((tfFeatures now tf (lastOf n (closedBy t bars))).map TfFeatures.toChecklist) := by
  have htake := (initial_closed ho t).filter_eq_take
  have hindex : lastClosedIndex bars t=before (closedBy t bars).length := lastIndex_eq (initial_closed ho t)
  have hle : (closedBy t bars).length ≤ bars.length := List.length_filter_le _ _
  change closedBy t bars=bars.take (closedBy t bars).length at htake
  rw [hindex]
  cases hlen : (closedBy t bars).length with
  | zero =>
    rw [List.length_eq_zero_iff.mp hlen,lastOf,List.drop_nil,tfFeatures_nil]
    rfl
  | succ i =>
    rw [hlen] at htake hle
    have hclosed : ∀ k ∈ windowAt n bars i, k.closeTime ≤ now := by
      intro k hk
      rw [windowAt,← htake] at hk
      exact (of_decide_eq_true (List.mem_filter.mp (List.mem_of_mem_drop hk)).2).trans ht
    rw [htake]
    change windowedEmaDir Js.Num bars n i=Checklist.tfDirection ((tfFeatures now tf (windowAt n bars i)).map _)
    rw [tfFeatures_closed tf hle hn hclosed,windowedEmaDir_eq tf hle]
    rfl

end

/-! The rows. -/
section
variable {F R : Type} [Numbers F] {dailyRegime : List Bar → ℚ → Option R} {s : SeriesBundle} {tf : String}
  {from_ to_ : ℚ} {i : ℕ}

/-- A row is measured at the position of its bar. -/
theorem mem_loopTo {row : BarMetrics F R} {n : ℕ} (h : (row,i) ∈ (loopTo dailyRegime s tf from_ to_ n).rows) :
    i < n ∧ measured s F from_ to_ i=true ∧ ∃ lastUp lastDown regime, row=rowAt s tf i lastUp lastDown regime := by
  induction n with
  | zero => cases h
  | succ n ih =>
    rw [loopTo_succ] at h
    unfold step at h
    dsimp only at h
    split at h
    · next hmeasured =>
      cases List.mem_append.mp h with
      | inl hold =>
        obtain ⟨hi,hrest⟩ := ih hold
        exact ⟨Nat.lt_succ_of_lt hi,hrest⟩
      | inr hnew =>
        rw [List.mem_singleton,Prod.mk.injEq] at hnew
        obtain ⟨rfl,rfl⟩ := hnew
        exact ⟨Nat.lt_succ_self _,hmeasured,_,_,_,rfl⟩
    · obtain ⟨hi,hrest⟩ := ih h
      exact ⟨Nat.lt_succ_of_lt hi,hrest⟩

/-- The row says of its bar what the features say. -/
structure BarMetrics.Agrees (row : BarMetrics Js.Num R) (f : TfFeatures) : Prop where
  close : row.close=f.lastClose
  atr : row.atr=f.atr14
  hi20 : row.hi20=f.swingHigh20
  lo20 : row.lo20=f.swingLow20
  hi20Prev : some row.hi20Prev=f.swingHigh20Prev
  lo20Prev : some row.lo20Prev=f.swingLow20Prev
  volRatio : row.volRatio=f.volRatio20
  ema20 : row.ema20=f.ema20

theorem rowAt_agrees (hq : ∀ k ∈ s.base, k.Quoted) (hi : i<s.base.length) (htwenty : 20 ≤ i)
    {lastUp lastDown : Option ℕ} {regime : Option R} : (rowAt s tf i lastUp lastDown regime).Agrees
      (featuresOf tf (windowAt 60 s.base i) (s.base.getD i {})) := by
  have hpos : 0 < i := by omega
  obtain ⟨hhigh,hlow⟩ := rollingExtreme_inclusive hi (Nat.succ_pos 19) (by decide : 20 ≤ 60)
  obtain ⟨hne,hhigh',hlow'⟩ := rollingExtreme_prior hi hpos (Nat.succ_pos 19) (by decide : 20 < 60)
  constructor
  · rfl
  · exact rollingAtr_eq hq hi (by decide) (by omega) (by decide)
  · exact hhigh
  · exact hlow
  · change some _=some (if _ then _ else _)
    rw [if_neg hne]
    exact congrArg some hhigh'
  · change some _=some (if _ then _ else _)
    rw [if_neg hne]
    exact congrArg some hlow'
  · exact rollingVolRatio_eq tf hi hpos (by decide)
  · change windowedEma s.base 60 20 i=_
    unfold windowedEma
    rw [← windowAt_eq hi]
    rfl

/-- Whatever the rows are asked for, each is what the features say that are computed when its bar closes, or
later, of the sixty bars that end at it and of the 120 of 1h and the 80 of 4h that are closed with it. -/
theorem metrics_eq_features (dailyRegime : List Bar → ℚ → Option R) (s : SeriesBundle) (tf : String)
    (from_ to_ now : ℚ) (hs : s.Sorted) (hq : ∀ k ∈ s.base, k.Quoted) (row : BarMetrics Js.Num R) (i : ℕ)
    (hrow : (row,i) ∈ computeMetrics dailyRegime s tf from_ to_) (hnow : row.t ≤ now) :
    (∃ f, tfFeatures now tf (lastOf 60 (s.base.take (i+1)))=some f ∧ row.Agrees f) ∧
      row.dirH1=Checklist.tfDirection
        ((tfFeatures now "1h" (lastOf 120 (closedBy row.t s.h1))).map TfFeatures.toChecklist) ∧
      row.dirH4=Checklist.tfDirection
        ((tfFeatures now "4h" (lastOf 80 (closedBy row.t s.h4))).map TfFeatures.toChecklist) := by
  obtain ⟨hi,hmeasured,lastUp,lastDown,regime,rfl⟩ := mem_loopTo hrow
  have htwenty : 20 ≤ i := by
    unfold measured at hmeasured
    simp only [Bool.and_eq_true,Bool.not_eq_true',Bool.or_eq_false_iff,decide_eq_false_iff_not] at hmeasured
    omega
  have hclosed := closed_of_ordered (n := 60) hs.base hi hnow
  refine ⟨⟨_,tfFeatures_closed tf hi (by decide) hclosed,rowAt_agrees hq hi htwenty⟩,?_,?_⟩
  · exact direction_eq "1h" hs.h1 (by decide) hnow
  · exact direction_eq "4h" hs.h4 (by decide) hnow

end

theorem quoted_sample : ∀ k ∈ (sampleBundle "120").base, k.Quoted := by
  intro k hk
  cases List.mem_append.mp hk with
  | inl hflat =>
    obtain ⟨i,-,rfl⟩ := List.mem_map.mp hflat
    exact ⟨101,99,100,(by decide +kernel : Js.Num.ofText "101"=.fin 101),
      (by decide +kernel : Js.Num.ofText "99"=.fin 99),(by decide +kernel : Js.Num.ofText "100"=.fin 100)⟩
  | inr hlast =>
    rw [List.mem_singleton.mp hlast]
    exact ⟨120,80,120,by decide +kernel,by decide +kernel,by decide +kernel⟩

theorem metrics_eq_features_sample :
    (computeMetrics (F := Js.Num) (R := String) (fun _ _ => none) (sampleBundle "120") "1m" 0 2000000).map Prod.snd =
      [20,21,22] ∧
    ∀ (row : BarMetrics Js.Num String) i,
      (row,i) ∈ computeMetrics (fun _ _ => none) (sampleBundle "120") "1m" 0 2000000 → row.t ≤ 2000000 →
        ∃ f, tfFeatures 2000000 "1m" (lastOf 60 ((sampleBundle "120").base.take (i+1)))=some f ∧ row.Agrees f :=
  ⟨by decide +kernel,fun row i hrow hnow => (metrics_eq_features (fun _ _ => none) (sampleBundle "120") "1m" 0 2000000
    2000000 (sampleBundle_sorted _) quoted_sample row i hrow hnow).1⟩

end TradeGate.Radar
