import TradeGate.Bars.Exact

/-! Averages of a series keep what means keep, over exact numbers. -/
namespace TradeGate.Indicators
open Series Radar Numbers ExactNumbers

section
variable {F : Type} [Numbers F] {P : ℚ → Prop} {R : ℚ → ℚ → Prop} {xs ys : List F}

/-- Every value, beyond the end too. -/
def All (P : ℚ → Prop) (xs : List F) : Prop := ∀ i, Holds P (xs.getD i nan)

def AllBoth (R : ℚ → ℚ → Prop) (xs ys : List F) : Prop :=
  xs.length=ys.length ∧ ∀ i, HoldBoth R (xs.getD i nan) (ys.getD i nan)

theorem all_iff : All P xs ↔ ∀ x ∈ xs, Holds P x := by
  constructor
  · intro h x hx
    obtain ⟨i,hi,rfl⟩ := List.mem_iff_getElem.mp hx
    have hread := h i
    rwa [List.getD_eq_getElem?_getD,List.getElem?_eq_getElem hi] at hread
  · intro h i
    rw [List.getD_eq_getElem?_getD]
    cases hget : xs[i]? with
    | none => exact holds_nan
    | some x => exact h x (List.mem_of_getElem? hget)

theorem all_filled (n : ℕ) : All P (filled n : List F) := by
  apply all_iff.mpr
  intro x hx
  exact .inl (List.eq_of_mem_replicate hx)

theorem getD_filled (n i : ℕ) : (filled n : List F).getD i nan=nan := by
  rw [filled,List.getD_eq_getElem?_getD,List.getElem?_replicate]
  split <;> rfl

theorem getD_along {α : Type} (f : List α → ℕ → F) (zs : List α) (i : ℕ) :
    (along f zs).getD i nan=if i<zs.length then f zs i else nan := by
  rw [List.getD_eq_getElem?_getD]
  split
  · rename_i hi
    rw [getElem?_along f hi]
    rfl
  · rename_i hi
    rw [List.getElem?_eq_none (by simpa using hi)]
    rfl

theorem all_along {α : Type} {f : List α → ℕ → F} {zs : List α} (h : ∀ i<zs.length, Holds P (f zs i)) :
    All P (along f zs) := by
  intro i
  rw [getD_along]
  split
  · exact h i ‹_›
  · exact holds_nan

theorem take_succ_getD {i : ℕ} (hi : i<xs.length) : xs.take (i+1)=xs.take i++[xs.getD i nan] := by
  rw [List.take_add_one,List.getD_eq_getElem?_getD,List.getElem?_eq_getElem hi]
  rfl

variable [ExactNumbers F]

theorem not_hole (q : ℚ) : ¬(!isFinite (lit q : F))=true := by
  rw [isFinite_lit]
  exact Bool.false_ne_true

theorem hole_nan : (!isFinite (nan : F))=true := by
  rw [isFinite_nan]
  rfl

/-! Wilder's smoothing, of two series side by side. -/

/-- The seeds are of pairs in the relation, and so are the averages. -/
def SeedBoth (R : ℚ → ℚ → Prop) (s t : Smoothing F) : Prop :=
  (s.prev=none ∧ t.prev=none ∧ ∃ ps : List (ℚ × ℚ), (∀ p ∈ ps, R p.1 p.2) ∧ s.count=ps.length ∧
    t.count=ps.length ∧ s.sum=lit (ps.map Prod.fst).sum ∧ t.sum=lit (ps.map Prod.snd).sum) ∨
  ∃ p q, s.prev=some (lit p) ∧ t.prev=some (lit q) ∧ R p q

/-- A step of the average is a mean that has the one before often. -/
theorem ConvexBoth.wilder (hR : ConvexBoth R) {period : ℕ} (hpos : period ≠ 0) {p q v w : ℚ} (hpq : R p q)
    (hvw : R v w) : R ((p*(period-1)+v)/period) ((q*(period-1)+w)/period) := by
  have hmean := hR (List.replicate (period-1) (p,q)++[(v,w)]) (by simp) (by
    intro z hz
    cases List.mem_append.mp hz with
    | inl hold => rwa [List.eq_of_mem_replicate hold]
    | inr hnew => rwa [List.mem_singleton.mp hnew])
  have hlen : (List.replicate (period-1) (p,q)++[(v,w)]).length=period := by
    rw [List.length_append,List.length_replicate,List.length_singleton]
    omega
  have hcast : ((period-1 : ℕ) : ℚ)=(period : ℚ)-1 := by
    rw [Nat.cast_sub (by omega),Nat.cast_one]
  rw [hlen] at hmean
  simp only [List.map_append,List.map_replicate,List.map_cons,List.map_nil,List.sum_append,
    List.sum_replicate,List.sum_singleton,nsmul_eq_mul,hcast] at hmean
  rwa [mul_comm p,mul_comm q]

theorem smoothBody_both (hR : ConvexBoth R) {period : ℕ} (hpos : period ≠ 0) {i : ℕ}
    (h : HoldBoth R (xs.getD i nan) (ys.getD i nan)) {s t : Smoothing F} (hst : SeedBoth R s t) :
    let next := fun prev v : F => div (add (mul prev (lit (period-1))) v) (lit period)
    SeedBoth R (smoothBody period next xs i s).1 (smoothBody period next ys i t).1 ∧
      HoldBoth R (smoothBody period next xs i s).2 (smoothBody period next ys i t).2 := by
  intro next
  have hperiod : (period : ℚ) ≠ 0 := Nat.cast_ne_zero.mpr hpos
  unfold smoothBody
  dsimp only
  cases h with
  | inl hnan =>
    rw [hnan.1,hnan.2,if_pos hole_nan,if_pos hole_nan]
    exact ⟨hst,.inl ⟨rfl,rfl⟩⟩
  | inr hlit =>
    obtain ⟨v,w,hv,hw,hvw⟩ := hlit
    rw [hv,hw,if_neg (not_hole v),if_neg (not_hole w)]
    cases hst with
    | inl hseed =>
      obtain ⟨hs,ht,ps,hps,hcs,hct,hsums,hsumt⟩ := hseed
      rw [hs,ht,hcs,hct,hsums,hsumt,add_lit,add_lit]
      have hps' : ∀ p ∈ ps++[(v,w)], R p.1 p.2 := by
        intro z hz
        cases List.mem_append.mp hz with
        | inl hold => exact hps z hold
        | inr hnew => rwa [List.mem_singleton.mp hnew]
      have hfst : (ps.map Prod.fst).sum+v=((ps++[(v,w)]).map Prod.fst).sum := by simp
      have hsnd : (ps.map Prod.snd).sum+w=((ps++[(v,w)]).map Prod.snd).sum := by simp
      have hlen : ps.length+1=(ps++[(v,w)]).length := by simp
      rw [hfst,hsnd,hlen]
      dsimp only
      by_cases hfull : (ps++[(v,w)]).length=period
      · rw [if_pos hfull,if_pos hfull,div_lit _ hperiod,div_lit _ hperiod]
        have hmean := hR _ (by simp) hps'
        rw [hfull] at hmean
        exact ⟨.inr ⟨_,_,rfl,rfl,hmean⟩,.inr ⟨_,_,rfl,rfl,hmean⟩⟩
      · rw [if_neg hfull,if_neg hfull]
        exact ⟨.inl ⟨rfl,rfl,_,hps',rfl,rfl,rfl,rfl⟩,.inl ⟨rfl,rfl⟩⟩
    | inr hprev =>
      obtain ⟨p,q,hs,ht,hpq⟩ := hprev
      rw [hs,ht]
      have hnext : ∀ a b : ℚ, next (lit a) (lit b)=lit ((a*(period-1)+b)/period) := by
        intro a b
        change div (add (mul (lit a) (lit (period-1))) (lit b)) (lit period)=_
        rw [mul_lit,add_lit,div_lit _ hperiod]
      dsimp only
      rw [hnext,hnext]
      have hmean := hR.wilder hpos hpq hvw
      exact ⟨.inr ⟨_,_,rfl,rfl,hmean⟩,.inr ⟨_,_,rfl,rfl,hmean⟩⟩

/-- One step of `rma`. -/
def wilder (period : ℕ) (prev v : F) : F := div (add (mul prev (lit (period-1))) v) (lit period)

theorem seedBoth_stateAt (hR : ConvexBoth R) {period : ℕ} (hpos : period ≠ 0)
    (h : ∀ i, HoldBoth R (xs.getD i nan) (ys.getD i nan)) (i : ℕ) :
    SeedBoth R (stateAt ⟨none,lit 0,0⟩ (smoothBody period (wilder period)) xs i)
      (stateAt ⟨none,lit 0,0⟩ (smoothBody period (wilder period)) ys i) := by
  induction i with
  | zero => exact .inl ⟨rfl,rfl,[],by simp,rfl,rfl,rfl,rfl⟩
  | succ i ih => exact (smoothBody_both hR hpos (h i) ih).1

theorem rma_both (hR : ConvexBoth R) (h : AllBoth R xs ys) (period : ℕ) :
    AllBoth R (rma xs period) (rma ys period) := by
  unfold rma
  by_cases hpos : period=0
  · rw [if_pos hpos,if_pos hpos,h.1]
    exact ⟨rfl,fun i => .inl ⟨getD_filled _ _,getD_filled _ _⟩⟩
  rw [if_neg hpos,if_neg hpos]
  refine ⟨by simp [smooth,h.1],?_⟩
  intro i
  unfold smooth loop
  rw [getD_along,getD_along,h.1]
  split
  · exact (smoothBody_both hR hpos (h.2 i) (seedBoth_stateAt hR hpos h.2 i)).2
  · exact .inl ⟨rfl,rfl⟩

theorem rma_all (hP : Convex P) (h : All P xs) (period : ℕ) : All P (rma xs period) := by
  have hboth := rma_both hP.diag (⟨rfl,fun i => HoldBoth.diag (h i)⟩ : AllBoth _ xs xs) period
  exact fun i => Holds.undiag (hboth.2 i)

theorem lit_ne_nan (q : ℚ) : (lit q : F) ≠ nan := by
  intro heq
  have hfinite := isFinite_lit (F := F) q
  rw [heq,isFinite_nan] at hfinite
  cases hfinite

/-- At a value the average that is put out is the one that is carried. -/
theorem smoothBody_prev {period : ℕ} {next : F → F → F} {i : ℕ} {v : ℚ} (hv : xs.getD i nan=lit v)
    (s : Smoothing F) : (smoothBody period next xs i s).2=(smoothBody period next xs i s).1.prev.getD nan := by
  unfold smoothBody
  dsimp only
  rw [hv,if_neg (not_hole v)]
  cases s.prev with
  | none =>
    dsimp only
    split <;> rfl
  | some prev => rfl

/-- On a series without holes there is an average from the first one on. -/
theorem rma_stays (h : ∀ i<xs.length, ∃ v : ℚ, xs.getD i nan=lit v) (period : ℕ) {i : ℕ} (hi : i+1<xs.length)
    {v : ℚ} (hnow : (rma xs period).getD i nan=lit v) : ∃ w : ℚ, (rma xs period).getD (i+1) nan=lit w := by
  have hall : All (fun _ => True) xs := by
    intro j
    by_cases hj : j<xs.length
    · obtain ⟨v,hv⟩ := h j hj
      exact .inr ⟨v,hv,trivial⟩
    · left
      rw [List.getD_eq_getElem?_getD,List.getElem?_eq_none (not_lt.mp hj)]
      rfl
  unfold rma at hnow ⊢
  by_cases hpos : period=0
  · rw [if_pos hpos,getD_filled] at hnow
    exact absurd hnow.symm (lit_ne_nan v)
  rw [if_neg hpos] at hnow ⊢
  unfold smooth loop at hnow ⊢
  rw [getD_along,if_pos (by omega)] at hnow
  rw [getD_along,if_pos hi]
  obtain ⟨v₀,hv₀⟩ := h i (by omega)
  obtain ⟨v₁,hv₁⟩ := h (i+1) hi
  rw [smoothBody_prev hv₀] at hnow
  have hseed := seedBoth_stateAt (Convex.diag fun _ _ _ => trivial) hpos (fun j => HoldBoth.diag (hall j)) (i+1)
  cases hseed with
  | inl hnone =>
    change (stateAt _ (smoothBody period (wilder period)) xs (i+1)).prev.getD nan=lit v at hnow
    rw [hnone.1] at hnow
    exact absurd hnow.symm (lit_ne_nan v)
  | inr hsome =>
    obtain ⟨p,-,hp,-,-⟩ := hsome
    have hperiod : (period : ℚ) ≠ 0 := Nat.cast_ne_zero.mpr hpos
    refine ⟨(p*(period-1)+v₁)/period,?_⟩
    change (smoothBody period (wilder period) xs (i+1)
      (stateAt _ (smoothBody period (wilder period)) xs (i+1))).2=_
    unfold smoothBody at hp ⊢
    dsimp only at hp ⊢
    rw [hv₁,if_neg (not_hole v₁),hp]
    dsimp only
    rw [wilder,mul_lit,add_lit,div_lit _ hperiod]

/-! The simple average. -/

/-- The sum is that of the last values, which have the property. -/
def RunningSum (P : ℚ → Prop) (period : ℕ) (xs : List F) (i : ℕ) (s : Running F) : Prop :=
  s.count ≤ i ∧ s.count ≤ period ∧ ∃ qs : List ℚ, (xs.take i).drop (i-s.count)=qs.map lit ∧ (∀ q ∈ qs, P q) ∧
    s.sum=lit qs.sum

theorem smaBody_spec (hP : Convex P) {period : ℕ} (hpos : period ≠ 0) {i : ℕ} (hi : i<xs.length)
    (h : Holds P (xs.getD i nan)) {s : Running F} (hs : RunningSum P period xs i s) :
    RunningSum P period xs (i+1) (smaBody period xs i s).1 ∧ Holds P (smaBody period xs i s).2 := by
  have hperiod : (period : ℚ) ≠ 0 := Nat.cast_ne_zero.mpr hpos
  have hcase : RunningSum P period xs (i+1) (smaBody period xs i s).1 ∧
      ((smaBody period xs i s).2=nan ∨ (smaBody period xs i s).1.count=period ∧
        (smaBody period xs i s).2=div (smaBody period xs i s).1.sum (lit period)) := by
    unfold smaBody
    dsimp only
    cases h with
    | inl hnan =>
      rw [hnan,if_pos hole_nan]
      refine ⟨⟨Nat.zero_le _,Nat.zero_le _,[],?_,by simp,rfl⟩,.inl rfl⟩
      rw [Nat.sub_zero,List.drop_of_length_le (by simp)]
      rfl
    | inr hlit =>
      obtain ⟨v,hv,hPv⟩ := hlit
      obtain ⟨hle,hcount,qs,hqs,hPqs,hsum⟩ := hs
      have htake := take_succ_getD hi
      rw [hv] at htake
      have hlen : qs.length=s.count := by
        have hlen := congrArg List.length hqs
        rw [List.length_drop,List.length_take,List.length_map] at hlen
        omega
      have hnew : (xs.take (i+1)).drop (i-s.count)=(qs++[v]).map lit := by
        rw [htake,List.drop_append_of_le_length (by rw [List.length_take]; omega),hqs,List.map_append]
        rfl
      have hPnew : ∀ q ∈ qs++[v], P q := by
        intro q hq
        cases List.mem_append.mp hq with
        | inl hold => exact hPqs q hold
        | inr hlast => rwa [List.mem_singleton.mp hlast]
      rw [hv,if_neg (not_hole v),hsum,add_lit]
      have hout : ∀ s : Running F, (if s.count=period then div s.sum (lit period) else nan)=nan ∨
          s.count=period ∧ (if s.count=period then div s.sum (lit period) else nan)=div s.sum (lit period) := by
        intro s
        by_cases hfull : s.count=period
        · exact .inr ⟨hfull,if_pos hfull⟩
        · exact .inl (if_neg hfull)
      refine ⟨?_,hout _⟩
      by_cases hover : period<s.count+1
      · rw [if_pos hover]
        have heq : s.count=period := by omega
        obtain ⟨q,qs,rfl⟩ := List.exists_cons_of_length_pos (by omega : 0<qs.length)
        rw [heq] at hnew hle
        have hdrop : xs.getD (i-period) nan=lit q := by
          have hhead := congrArg List.head? hnew
          rw [List.head?_drop,List.getElem?_take_of_lt (by omega)] at hhead
          rw [List.getD_eq_getElem?_getD,hhead]
          rfl
        rw [hdrop,isFinite_lit,if_pos rfl,sub_lit]
        refine ⟨Nat.le_succ_of_le hle,le_rfl,qs++[v],?_,fun z hz => hPnew z (List.mem_cons_of_mem _ hz),?_⟩
        · have htail := congrArg List.tail hnew
          rw [List.tail_drop] at htail
          rw [show i+1-period=i-period+1 by omega,htail]
          rfl
        · refine congrArg lit ?_
          rw [List.sum_cons,List.sum_append,List.sum_singleton]
          ring
      · rw [if_neg hover]
        refine ⟨Nat.succ_le_succ hle,not_lt.mp hover,qs++[v],?_,hPnew,?_⟩
        · rw [show i+1-(s.count+1)=i-s.count by omega]
          exact hnew
        · rw [List.sum_append,List.sum_singleton]
  refine ⟨hcase.1,?_⟩
  obtain ⟨⟨hle,hcount,qs,hqs,hPqs,hsum⟩,hout⟩ := hcase
  cases hout with
  | inl hnan => exact .inl hnan
  | inr hdiv =>
    have hlen := congrArg List.length hqs
    rw [List.length_drop,List.length_take,List.length_map] at hlen
    have hfull : qs.length=period := by
      have hsize := hdiv.1
      omega
    rw [hdiv.2,hsum,div_lit _ hperiod,← hfull]
    exact holds_lit (hP qs (List.ne_nil_of_length_pos (by omega)) hPqs)

theorem sma_all (hP : Convex P) (h : All P xs) (period : ℕ) : All P (sma xs period) := by
  unfold sma
  by_cases hpos : period=0
  · rw [if_pos hpos]
    exact all_filled _
  rw [if_neg hpos]
  apply all_along
  intro i hi
  apply (smaBody_spec hP hpos hi (h i) _).2
  refine stateAt_induction (P := RunningSum P period xs) ⟨le_rfl,Nat.zero_le _,[],rfl,by simp,rfl⟩ ?_ hi.le
  intro i s hi hs
  exact (smaBody_spec hP hpos hi (h i) hs).1

end
end TradeGate.Indicators
