import TradeGate.Bars.Smooth

/-! The bands of the SuperTrend trail the close as long as no bar closes beyond the band it would follow. -/
namespace TradeGate.Indicators
open Series Radar Numbers ExactNumbers

section
variable {F : Type} [Numbers F]

/-- The bar leaves the trend rising. -/
def Bands.rises (k : Bar F) (s : Bands F) : Bool := lt s.up k.close || (!lt k.close s.dn && decide (s.dir=.up))

/-- The bar closes beyond the band that it would follow: its own, or, where the bands before have crossed,
the lower one of them that is kept. -/
def Bands.Passed (mult v : F) (k : Bar F) (before : F) (s : Bands F) : Prop :=
  let hl2 := div (add k.high k.low) (lit 2)
  s.started=true ∧
    if s.rises k then lt k.close (sub hl2 (mul mult v))=true ∨ lt k.close s.dn=true ∧ le s.dn before=true
    else lt (add hl2 (mul mult v)) k.close=true

instance (mult v : F) (k : Bar F) (before : F) (s : Bands F) : Decidable (s.Passed mult v k before) := by
  unfold Bands.Passed
  infer_instance

/-- The line is on the side of the trend. -/
def TrendPoint.Trails (p : TrendPoint F) (k : Bar F) : Prop :=
  match p.dir with
  | .up => le p.value k.close=true
  | .down => le k.close p.value=true

/-- The line does not move against the trend. -/
def TrendPoint.Ratchets (p q : TrendPoint F) : Prop :=
  match p.dir with
  | .up => le p.value q.value=true
  | .down => le q.value p.value=true

variable [ExactNumbers F] {ks : List (Bar ℚ)} {k : Bar ℚ} {s : Bands F} {m v u d c : ℚ}

/-- The middle of a bar. -/
def mid (k : Bar ℚ) : ℚ := (k.high+k.low)/2

theorem nextBands_start (hs : s.started=false) : nextBands (lit m) (lit v) (k.lift F) (lit c) s =
    ⟨lit (mid k+m*v),lit (mid k-m*v),if mid k ≤ k.close then .up else .down,true⟩ := by
  unfold nextBands mid
  simp only [Bar.lift,add_lit,mul_lit,sub_lit,le_lit,hs,div_lit _ (two_ne_zero : (2 : ℚ) ≠ 0),Bool.not_false,
    if_true,decide_eq_true_eq]

theorem nextBands_lit (hs : s.started=true) (hu : s.up=lit u) (hd : s.dn=lit d) :
    nextBands (lit m) (lit v) (k.lift F) (lit c) s =
      { up := lit (if mid k+m*v<u ∨ u<c then mid k+m*v else u)
        dn := lit (if d < mid k-m*v ∨ c<d then mid k-m*v else d)
        dir := if u<k.close then .up else if k.close<d then .down else s.dir
        started := true } := by
  unfold nextBands mid
  simp only [Bar.lift,add_lit,mul_lit,sub_lit,lt_lit,hs,hu,hd,div_lit _ (two_ne_zero : (2 : ℚ) ≠ 0),
    Bool.not_true,Bool.or_eq_true,decide_eq_true_eq]
  rw [if_neg (by simp)]
  congr 1
  · split <;> rfl
  · split <;> rfl

theorem rises_lit (hu : s.up=lit u) (hd : s.dn=lit d) :
    s.rises (k.lift F)=true ↔ u<k.close ∨ ¬k.close<d ∧ s.dir=.up := by
  unfold Bands.rises
  simp [Bar.lift,hu,hd,lt_lit]

theorem trails_point {dir : Dir} {b : Bool} : (⟨lit u,lit d,dir,b⟩ : Bands F).point.Trails (k.lift F) ↔
    if dir=.up then d ≤ k.close else k.close ≤ u := by
  cases dir with
  | up =>
    change le (lit d) (lit k.close)=true ↔ _
    rw [le_lit,decide_eq_true_eq,if_pos rfl]
  | down =>
    change le (lit k.close) (lit u)=true ↔ _
    rw [le_lit,decide_eq_true_eq,if_neg (by decide)]

theorem passed_lit (hs : s.started=true) (hu : s.up=lit u) (hd : s.dn=lit d) :
    s.Passed (lit m) (lit v) (k.lift F) (lit c) ↔
      if u<k.close ∨ ¬k.close<d ∧ s.dir=.up then k.close < mid k-m*v ∨ k.close<d ∧ d ≤ c
      else mid k+m*v<k.close := by
  have hmid : div (add (k.lift F).high (k.lift F).low) (lit 2)=(lit (mid k) : F) := by
    change div (add (lit k.high) (lit k.low)) (lit 2)=(lit (mid k) : F)
    rw [add_lit,div_lit _ two_ne_zero,mid]
  unfold Bands.Passed
  dsimp only
  rw [hmid,and_iff_right hs]
  by_cases hr : s.rises (k.lift F)=true
  · rw [if_pos hr,if_pos ((rises_lit hu hd).mp hr)]
    simp only [hd,Bar.lift,mul_lit,sub_lit,lt_lit,le_lit,decide_eq_true_eq]
  · rw [if_neg hr,if_neg fun h => hr ((rises_lit hu hd).mpr h)]
    simp only [Bar.lift,mul_lit,add_lit,lt_lit,decide_eq_true_eq]

/-- The first bands are on both sides of the close. -/
theorem trails_start (hs : s.started=false) (hm : 0 ≤ m) (hv : 0 ≤ v) :
    (nextBands (lit m) (lit v) (k.lift F) (lit c) s).point.Trails (k.lift F) := by
  have hwidth : 0 ≤ m*v := mul_nonneg hm hv
  rw [nextBands_start hs,trails_point]
  by_cases hside : mid k ≤ k.close
  · rw [if_pos hside,if_pos rfl]
    linarith
  · rw [if_neg hside,if_neg (by decide)]
    linarith

/-- A bar has its line on the side of the trend exactly if it does not close beyond the band. -/
theorem trails_iff (hs : s.started=true) (hu : s.up=lit u) (hd : s.dn=lit d) :
    (nextBands (lit m) (lit v) (k.lift F) (lit c) s).point.Trails (k.lift F) ↔
      ¬s.Passed (lit m) (lit v) (k.lift F) (lit c) := by
  rw [passed_lit hs hu hd,nextBands_lit hs hu hd,trails_point]
  by_cases hup : u<k.close
  · simp only [hup,true_or,if_true]
    split <;> grind
  by_cases hdn : k.close<d
  · simp only [hup,hdn,not_true,false_and,or_self,if_true,if_false]
    split <;> grind
  cases hdir : s.dir with
  | up =>
    simp only [hup,hdn,not_false_eq_true,true_and,or_true,if_true,if_false]
    split <;> grind
  | down =>
    simp only [hup,hdn,if_false]
    split <;> grind

/-- After a bar whose line is on the side of the trend, the line of a bar of the same direction does not
move against it. -/
theorem ratchets_of_trails (hs : s.started=true) (hu : s.up=lit u) (hd : s.dn=lit d) {b : Bar ℚ}
    (h : s.point.Trails (b.lift F))
    (hdir : (nextBands (lit m) (lit v) (k.lift F) (lit b.close) s).dir=s.dir) :
    s.point.Ratchets (nextBands (lit m) (lit v) (k.lift F) (lit b.close) s).point := by
  rw [nextBands_lit hs hu hd] at hdir ⊢
  obtain ⟨up,dn,dir,started⟩ := s
  dsimp only at hs hu hd hdir
  subst hs hu hd
  rw [trails_point] at h
  unfold Bands.point TrendPoint.Ratchets
  dsimp only at hdir ⊢
  rw [hdir]
  cases dir with
  | up =>
    rw [if_pos rfl] at h
    dsimp only
    rw [le_lit,decide_eq_true_eq]
    split <;> grind
  | down =>
    rw [if_neg (by decide)] at h
    dsimp only
    rw [le_lit,decide_eq_true_eq]
    split <;> grind

/-! The loop. -/

/-- The bands before a bar. -/
def bandsBefore (bars : List (Bar F)) (period : ℕ) (mult : F) (i : ℕ) : Bands F :=
  stateAt ⟨nan,nan,.up,false⟩ (supertrendBody mult) (bars.zip (atr bars period)) i

/-- The average range at a bar. -/
def atrAt (bars : List (Bar F)) (period i : ℕ) : F := (atr bars period).getD i nan

variable {period i : ℕ}

/-- Ranges are there for every bar, and not negative. -/
theorem trueRange_lit (hks : ∀ k ∈ ks, k.WellFormed) (hi : i<ks.length) :
    ∃ v : ℚ, (trueRange (lift F ks)).getD i nan=lit v ∧ 0 ≤ v := by
  obtain ⟨k,hk⟩ := getElem?_of_lt_length hi
  obtain ⟨k',hk'⟩ := getElem?_of_lt_length (show i-1<ks.length by omega)
  have hwf := hks k (List.mem_of_getElem? hk)
  have hrange : 0 ≤ k.high-k.low := sub_nonneg.mpr (hwf.low_close.trans hwf.close_high)
  rw [trueRange,getD_along,length_lift,if_pos hi,barAt_lift hk,barAt_lift hk']
  simp only [Bar.lift,sub_lit,abs_lit,max_lit]
  split
  · exact ⟨_,rfl,hrange⟩
  · exact ⟨_,rfl,(abs_nonneg _).trans (le_max_right _ _)⟩

theorem atrAt_cases (hks : ∀ k ∈ ks, k.WellFormed) (period i : ℕ) :
    Holds (fun v => 0 ≤ v) (atrAt (lift F ks) period i) := by
  apply rma_all convex_nonneg
  intro j
  by_cases hj : j<ks.length
  · obtain ⟨v,hv,hpos⟩ := trueRange_lit (F := F) hks hj
    exact .inr ⟨v,hv,hpos⟩
  · left
    rw [trueRange,getD_along,length_lift,if_neg hj]

theorem atrAt_stays (hks : ∀ k ∈ ks, k.WellFormed) (hi : i+1<ks.length)
    (hnow : atrAt (lift F ks) period i=lit v) : ∃ w : ℚ, atrAt (lift F ks) period (i+1)=lit w := by
  have hlen : (trueRange (lift F ks)).length=ks.length := by rw [trueRange,length_along,length_lift]
  apply rma_stays _ period (hlen.symm ▸ hi) hnow
  intro j hj
  obtain ⟨v,hv,-⟩ := trueRange_lit (F := F) hks (hlen ▸ hj)
  exact ⟨v,hv⟩

omit [ExactNumbers F] in
theorem length_atr (bars : List (Bar F)) (period : ℕ) : (atr bars period).length=bars.length := by
  unfold atr rma
  split
  · rw [filled,List.length_replicate,trueRange,length_along]
  · rw [smooth,length_loop,trueRange,length_along]

omit [ExactNumbers F] in
theorem supertrendBody_eq (bars : List (Bar F)) (period : ℕ) (mult : F) (i : ℕ) (s : Bands F) :
    supertrendBody mult (bars.zip (atr bars period)) i s =
      if !isFinite (atrAt bars period i) then ({ s with up := nan, dn := nan },⟨nan,.up⟩)
      else (nextBands mult (atrAt bars period i) (barAt bars i) (barAt bars (i-1)).close s,
        (nextBands mult (atrAt bars period i) (barAt bars i) (barAt bars (i-1)).close s).point) := by
  unfold supertrendBody atrAt
  rw [List.map_fst_zip (length_atr bars period).ge,List.map_snd_zip (length_atr bars period).le]

/-- Until there are ranges there are no bands; then there are, of rationals. -/
def Bands.Sound (bars : List (Bar F)) (period i : ℕ) (s : Bands F) : Prop :=
  s.started=false ∨ s.started=true ∧ (∃ u d : ℚ, s.up=lit u ∧ s.dn=lit d) ∧
    ∃ j v, i=j+1 ∧ atrAt bars period j=lit v

theorem nextBands_sound {j : ℕ} (hs : s.Sound (lift F ks) period j) (b : Bar ℚ) :
    (nextBands (lit m) (lit v) (k.lift F) (b.lift F).close s).started=true ∧
      ∃ u d : ℚ, (nextBands (lit m) (lit v) (k.lift F) (b.lift F).close s).up=lit u ∧
        (nextBands (lit m) (lit v) (k.lift F) (b.lift F).close s).dn=lit d := by
  change (nextBands (lit m) (lit v) (k.lift F) (lit b.close) s).started=true ∧ _
  cases hs with
  | inl hstart =>
    have heq := nextBands_start (F := F) (k := k) (m := m) (v := v) (c := b.close) hstart
    exact ⟨congrArg Bands.started heq,_,_,congrArg Bands.up heq,congrArg Bands.dn heq⟩
  | inr hrun =>
    obtain ⟨hs,⟨u,d,hu,hd⟩,-⟩ := hrun
    have heq := nextBands_lit (F := F) (k := k) (m := m) (v := v) (c := b.close) hs hu hd
    exact ⟨congrArg Bands.started heq,_,_,congrArg Bands.up heq,congrArg Bands.dn heq⟩

theorem bandsBefore_sound (hks : ∀ k ∈ ks, k.WellFormed) (period : ℕ) (hi : i ≤ ks.length) :
    (bandsBefore (lift F ks) period (lit m) i).Sound (lift F ks) period i := by
  have hlen : ((lift F ks).zip (atr (lift F ks) period)).length=ks.length := by
    rw [List.length_zip,length_atr,Nat.min_self,length_lift]
  refine stateAt_induction (P := fun i (s : Bands F) => s.Sound (lift F ks) period i) (.inl rfl) ?_ (hlen ▸ hi)
  intro i s hi hs
  rw [hlen] at hi
  rw [supertrendBody_eq]
  obtain ⟨k,hk⟩ := getElem?_of_lt_length hi
  obtain ⟨b,hb⟩ := getElem?_of_lt_length (show i-1<ks.length by omega)
  cases atrAt_cases (F := F) hks period i with
  | inl hnan =>
    rw [hnan,if_pos hole_nan]
    cases hs with
    | inl hstart => exact .inl hstart
    | inr hrun =>
      obtain ⟨-,-,j,v,rfl,hv⟩ := hrun
      obtain ⟨w,hw⟩ := atrAt_stays hks hi hv
      rw [hnan] at hw
      exact absurd hw.symm (lit_ne_nan w)
  | inr hlit =>
    obtain ⟨v,hv,-⟩ := hlit
    rw [hv,if_neg (not_hole v),barAt_lift hk,barAt_lift hb]
    obtain ⟨hstarted,hbands⟩ := nextBands_sound (k := k) (m := m) (v := v) hs b
    exact .inr ⟨hstarted,hbands,i,v,rfl,hv⟩

/-- What a bar with a range puts out, and what the loop carries on from it. -/
theorem supertrend_at (hks : ∀ k ∈ ks, k.WellFormed) (hi : i<ks.length) {p : TrendPoint F}
    (hp : (supertrend (lift F ks) period (lit m))[i]?=some p) (hdef : p.value ≠ nan) :
    ∃ v : ℚ, atrAt (lift F ks) period i=lit v ∧ 0 ≤ v ∧
      bandsBefore (lift F ks) period (lit m) (i+1) =
        nextBands (lit m) (lit v) (barAt (lift F ks) i) (barAt (lift F ks) (i-1)).close
          (bandsBefore (lift F ks) period (lit m) i) ∧
      p=(bandsBefore (lift F ks) period (lit m) (i+1)).point := by
  have hlen : i<((lift F ks).zip (atr (lift F ks) period)).length := by
    rw [List.length_zip,length_atr,Nat.min_self,length_lift]
    exact hi
  have hout : (supertrendBody (lit m) ((lift F ks).zip (atr (lift F ks) period)) i
      (bandsBefore (lift F ks) period (lit m) i)).2=p := by
    have hget : (supertrend (lift F ks) period (lit m))[i]?=some (supertrendBody (lit m)
        ((lift F ks).zip (atr (lift F ks) period)) i (bandsBefore (lift F ks) period (lit m) i)).2 :=
      getElem?_loop _ _ hlen
    exact Option.some_inj.mp (hget.symm.trans hp)
  have hnext : bandsBefore (lift F ks) period (lit m) (i+1) =
      (supertrendBody (lit m) ((lift F ks).zip (atr (lift F ks) period)) i
        (bandsBefore (lift F ks) period (lit m) i)).1 := rfl
  rw [supertrendBody_eq] at hout hnext
  cases atrAt_cases (F := F) hks period i with
  | inl hnan =>
    rw [hnan,if_pos hole_nan] at hout
    exact absurd (congrArg TrendPoint.value hout).symm hdef
  | inr hlit =>
    obtain ⟨v,hv,hpos⟩ := hlit
    rw [hv,if_neg (not_hole v)] at hout hnext
    exact ⟨v,hv,hpos,hnext,by rw [hnext]; exact hout.symm⟩

/-- A bar has its line on the side of the trend exactly if it does not close beyond the band. -/
theorem trails_at (hks : ∀ k ∈ ks, k.WellFormed) (hm : 0 ≤ m) (hi : i<ks.length) {p : TrendPoint F}
    (hp : (supertrend (lift F ks) period (lit m))[i]?=some p) (hdef : p.value ≠ nan) :
    p.Trails (barAt (lift F ks) i) ↔ ¬(bandsBefore (lift F ks) period (lit m) i).Passed (lit m)
      (atrAt (lift F ks) period i) (barAt (lift F ks) i) (barAt (lift F ks) (i-1)).close := by
  obtain ⟨v,hv,hpos,hnext,hpoint⟩ := supertrend_at hks hi hp hdef
  obtain ⟨k,hk⟩ := getElem?_of_lt_length hi
  obtain ⟨b,hb⟩ := getElem?_of_lt_length (show i-1<ks.length by omega)
  rw [hpoint,hnext,hv,barAt_lift hk,barAt_lift hb]
  cases bandsBefore_sound (F := F) (m := m) hks period hi.le with
  | inl hstart =>
    have htrails := trails_start (k := k) (c := b.close) hstart hm hpos
    refine iff_of_true htrails ?_
    intro hpassed
    have hstarted := hpassed.1
    rw [hstart] at hstarted
    exact Bool.false_ne_true hstarted
  | inr hrun =>
    obtain ⟨hs,⟨u,d,hu,hd⟩,-⟩ := hrun
    exact trails_iff hs hu hd

theorem ratchets_at (hks : ∀ k ∈ ks, k.WellFormed) (hi : i+1<ks.length) {p q : TrendPoint F}
    (hp : (supertrend (lift F ks) period (lit m))[i]?=some p) (hdef : p.value ≠ nan)
    (hq : (supertrend (lift F ks) period (lit m))[i+1]?=some q) (hdef' : q.value ≠ nan)
    (htrails : p.Trails (barAt (lift F ks) i)) (hdir : q.dir=p.dir) : p.Ratchets q := by
  obtain ⟨v,hv,-,hnext,hpoint⟩ := supertrend_at hks (Nat.lt_of_succ_lt hi) hp hdef
  obtain ⟨w,hw,-,hnext',hpoint'⟩ := supertrend_at hks hi hq hdef'
  obtain ⟨k,hk⟩ := getElem?_of_lt_length hi
  obtain ⟨b,hb⟩ := getElem?_of_lt_length (show i<ks.length by omega)
  rw [Nat.add_sub_cancel,barAt_lift hk,barAt_lift hb] at hnext'
  rw [hpoint,barAt_lift hb] at htrails
  rw [hpoint',hpoint,hnext'] at hdir
  rw [hpoint',hpoint,hnext']
  have hstarted : (bandsBefore (lift F ks) period (lit m) (i+1)).started=true := by
    rw [hnext]
    unfold nextBands
    dsimp only
    split <;> rfl
  cases bandsBefore_sound (F := F) (m := m) hks period hi.le with
  | inl hstart =>
    rw [hstart] at hstarted
    cases hstarted
  | inr hrun =>
    obtain ⟨hs,⟨u,d,hu,hd⟩,-⟩ := hrun
    exact ratchets_of_trails hs hu hd htrails hdir

/-- Without a range there are no bands to close beyond. -/
theorem not_passed_of_nan (hks : ∀ k ∈ ks, k.WellFormed) (hi : i<ks.length)
    (hnan : atrAt (lift F ks) period i=nan) {w : F} {k : Bar F} {before : F} :
    ¬(bandsBefore (lift F ks) period (lit m) i).Passed (lit m) w k before := by
  intro hpassed
  cases bandsBefore_sound (F := F) (m := m) hks period hi.le with
  | inl hstart =>
    have hstarted := hpassed.1
    rw [hstart] at hstarted
    exact Bool.false_ne_true hstarted
  | inr hrun =>
    obtain ⟨-,-,j,v,rfl,hv⟩ := hrun
    obtain ⟨w,hw⟩ := atrAt_stays hks hi hv
    rw [hnan] at hw
    exact lit_ne_nan w hw.symm

/-- With a range there is a line. -/
theorem defined_at (hks : ∀ k ∈ ks, k.WellFormed) (hi : i<ks.length) (hv : atrAt (lift F ks) period i=lit v) :
    ∃ p, (supertrend (lift F ks) period (lit m))[i]?=some p ∧ p.value ≠ nan := by
  have hlen : i<((lift F ks).zip (atr (lift F ks) period)).length := by
    rw [List.length_zip,length_atr,Nat.min_self,length_lift]
    exact hi
  refine ⟨_,getElem?_loop _ _ hlen,?_⟩
  change (supertrendBody (lit m) ((lift F ks).zip (atr (lift F ks) period)) i
    (bandsBefore (lift F ks) period (lit m) i)).2.value ≠ nan
  obtain ⟨k,hk⟩ := getElem?_of_lt_length hi
  obtain ⟨b,hb⟩ := getElem?_of_lt_length (show i-1<ks.length by omega)
  rw [supertrendBody_eq,hv,if_neg (not_hole v),barAt_lift hk,barAt_lift hb]
  obtain ⟨-,u,d,hu,hd⟩ := nextBands_sound (k := k) (m := m) (v := v)
    (bandsBefore_sound (F := F) (m := m) hks period hi.le) b
  unfold Bands.point
  dsimp only
  rw [hu,hd]
  split
  · exact lit_ne_nan d
  · exact lit_ne_nan u

end

/-- The line is on the side of the trend at every bar, and does not move against it while the direction
stays, exactly if no bar closes beyond the band that it would follow. -/
theorem supertrend_trails_iff (ks : List (Bar ℚ)) (hks : ∀ k ∈ ks, k.WellFormed) (period : ℕ) (mult : ℚ)
    (hm : 0 < mult) :
    let bars := lift Js.Num ks
    let out := supertrend bars period (.fin mult)
    (∀ i p, out[i]?=some p → p.value ≠ .nan → p.Trails (barAt bars i) ∧
      ∀ q, out[i+1]?=some q → q.value ≠ .nan → q.dir=p.dir → p.Ratchets q) ↔
    ∀ i<ks.length, ¬(bandsBefore bars period (.fin mult) i).Passed (.fin mult) (atrAt bars period i)
      (barAt bars i) (barAt bars (i-1)).close := by
  intro bars out
  have hlen : out.length=ks.length := by
    change (supertrend _ _ _).length=_
    rw [supertrend,length_loop,List.length_zip,length_atr,Nat.min_self,length_lift]
  have hlt : ∀ {i p}, out[i]?=some p → i<ks.length := by
    intro i p hp
    rw [← hlen]
    exact (List.getElem?_eq_some_iff.mp hp).1
  constructor
  · intro h i hi
    cases atrAt_cases (F := Js.Num) hks period i with
    | inl hnan => exact not_passed_of_nan hks hi hnan
    | inr hlit =>
      obtain ⟨v,hv,-⟩ := hlit
      obtain ⟨p,hp,hdef⟩ := defined_at (m := mult) hks hi hv
      exact (trails_at hks hm.le hi hp hdef).mp (h i p hp hdef).1
  · intro h i p hp hdef
    have htrails := (trails_at hks hm.le (hlt hp) hp hdef).mpr (h i (hlt hp))
    refine ⟨htrails,?_⟩
    intro q hq hdef' hdir
    exact ratchets_at hks (hlt hq) hp hdef hq hdef' htrails hdir

/-- A rise that carries its upper band, then its lower one, then falls below that, and a bar of the fall. -/
def turningBars : List (Bar ℚ) :=
  [{ openPrice := 11, high := 12, low := 10, close := 11, openTime := 0, volume := 1 },
    { openPrice := 12, high := 13, low := 12, close := 13, openTime := 60000, volume := 1 },
    { openPrice := 13, high := 13, low := 11, close := 12, openTime := 120000, volume := 1 },
    { openPrice := 12, high := 12, low := 8, close := 9, openTime := 180000, volume := 1 },
    { openPrice := 10, high := 11, low := 10, close := 10, openTime := 240000, volume := 1 }]

theorem turningBars_wellFormed : ∀ k ∈ turningBars, k.WellFormed := by
  intro k hk
  simp only [turningBars,List.mem_cons,List.not_mem_nil,or_false] at hk
  rcases hk with rfl | rfl | rfl | rfl | rfl <;>
    exact ⟨⟨by norm_num,by norm_num,by norm_num,by norm_num⟩,by norm_num,by norm_num⟩

/-- The line stays under two bars, turns above the third, and falls with the last. -/
theorem supertrend_trails_iff_turning :
    supertrend (lift Js.Num turningBars) 1 (.fin 1)=[⟨.fin 9,.up⟩,⟨.fin (21/2),.up⟩,⟨.fin (21/2),.up⟩,⟨.fin 13,.down⟩,
      ⟨.fin (25/2),.down⟩] ∧
    (TrendPoint.mk (.fin (21/2)) .up).Trails (barAt (lift Js.Num turningBars) 2) ∧
    (TrendPoint.mk (.fin 13) .down).Trails (barAt (lift Js.Num turningBars) 3) ∧
    (TrendPoint.mk (F := Js.Num) (.fin 13) .down).Ratchets (.mk (.fin (25/2)) .down) := by
  have hline : supertrend (lift Js.Num turningBars) 1 (.fin 1)=[⟨.fin 9,.up⟩,⟨.fin (21/2),.up⟩,⟨.fin (21/2),.up⟩,
      ⟨.fin 13,.down⟩,⟨.fin (25/2),.down⟩] := by decide +kernel
  have hall := (supertrend_trails_iff turningBars turningBars_wellFormed 1 1 (by norm_num)).mpr (by decide +kernel)
  rw [hline] at hall
  have hlast := hall 3 _ rfl nofun
  exact ⟨hline,(hall 2 _ rfl nofun).1,hlast.1,hlast.2 _ rfl nofun rfl⟩

/-- A bar at one price. -/
def flatBar : Bar ℚ := { openPrice := 10, high := 10, low := 10, close := 10, openTime := 0, volume := 1 }

/-- After ten flat bars one that rises and falls back to its low: its line is above its close. -/
theorem supertrend_above_close :
    (supertrend (lift Js.Num (List.replicate 10 flatBar++[{ flatBar with high := 20 }])) 10 (.fin 3))[10]? =
      some ⟨.fin 12,.up⟩ ∧
    ¬(TrendPoint.mk (.fin 12) .up).Trails
      (barAt (lift Js.Num (List.replicate 10 flatBar++[{ flatBar with high := 20 }])) 10) := by
  constructor
  · decide +kernel
  · unfold TrendPoint.Trails
    decide +kernel

end TradeGate.Indicators
