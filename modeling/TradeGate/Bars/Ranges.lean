import TradeGate.Bars.Smooth

/-! Oscillators stay in their ranges and divide by nothing that vanishes. -/
namespace TradeGate.Indicators
open Series Radar Numbers ExactNumbers

section
variable {F : Type} [Numbers F] [ExactNumbers F] {P : ℚ → Prop} {ks : List (Bar ℚ)} {i : ℕ}

/-! Tests and quotients of rationals. -/

theorem same_lit (a b : ℚ) : same (lit a : F) (lit b)=decide (a=b) := by
  unfold same
  rw [le_lit,le_lit,← Bool.decide_and,decide_eq_decide]
  exact ⟨fun h => le_antisymm h.1 h.2,fun h => ⟨h.le,h.ge⟩⟩

theorem both_holds {Q : ℚ → Prop} {g : F → F → F} {a b : F} (ha : Holds P a) (hb : Holds P b)
    (hg : ∀ p q, P p → P q → Holds Q (g (lit p) (lit q))) : Holds Q (both g a b) := by
  unfold both
  cases ha with
  | inl hnan =>
    rw [hnan,isFinite_nan]
    exact holds_nan
  | inr hlit =>
    obtain ⟨p,rfl,hp⟩ := hlit
    cases hb with
    | inl hnan =>
      rw [hnan,isFinite_nan,Bool.and_false]
      exact holds_nan
    | inr hlit =>
      obtain ⟨q,rfl,hq⟩ := hlit
      rw [isFinite_lit,isFinite_lit]
      exact hg p q hp hq

theorem strength_within {g l : ℚ} (hg : 0 ≤ g) (hl : 0 ≤ l) : Within 0 100 (strength (lit g : F) (lit l)) := by
  unfold strength
  rw [same_lit,same_lit]
  by_cases hzero : l=0
  · rw [if_pos (decide_eq_true hzero)]
    split
    · exact holds_lit ⟨by norm_num,by norm_num⟩
    · exact holds_lit ⟨by norm_num,le_rfl⟩
  · have hpos : 0<l := lt_of_le_of_ne hl (Ne.symm hzero)
    have hratio : 0 ≤ g/l := div_nonneg hg hl
    have hone : 1 ≤ 1+g/l := by linarith
    rw [if_neg (by simpa using hzero),div_lit _ hzero,add_lit,div_lit _ (by linarith),sub_lit]
    have hquot : 100/(1+g/l) ≤ 100 := div_le_self (by norm_num) hone
    have hquot' : 0 ≤ 100/(1+g/l) := div_nonneg (by norm_num) (by linarith)
    exact holds_lit ⟨by linarith,by linarith⟩

/-- A part of a whole, in percent. -/
theorem percent_mem {p t : ℚ} (hp : 0 ≤ p) (hpt : p ≤ t) (ht : 0<t) : 0 ≤ p/t*100 ∧ p/t*100 ≤ 100 := by
  have hle : p/t ≤ 1 := (div_le_one ht).mpr hpt
  have hnonneg : 0 ≤ p/t := div_nonneg hp ht.le
  constructor <;> linarith

/-! Windows of rationals. -/

omit [ExactNumbers F] in
/-- A running extreme is one that no value beats. -/
theorem foldl_extreme (beats : F → F → Bool) {r : ℚ → ℚ → Prop} (htest : ∀ a b, beats (lit a) (lit b)=true ↔ r a b)
    (hasymm : ∀ a b, r a b → ¬r b a) (htrans : ∀ a b c, ¬r a b → ¬r b c → ¬r a c) (qs : List ℚ) (q : ℚ) :
    ∃ e, (qs.map lit : List F).foldl (fun b v => if beats b v then v else b) (lit q)=lit e ∧ ¬r e q ∧
      ∀ z ∈ qs, ¬r e z := by
  induction qs generalizing q with
  | nil => exact ⟨q,rfl,fun h => hasymm q q h h,by simp⟩
  | cons z qs ih =>
    rw [List.map_cons,List.foldl_cons]
    by_cases hbeats : beats (lit q) (lit z)=true
    · obtain ⟨e,heq,hstart,hall⟩ := ih z
      refine ⟨e,by rw [if_pos hbeats,heq],htrans e z q hstart (hasymm q z ((htest q z).mp hbeats)),?_⟩
      intro y hy
      cases hy with
      | head => exact hstart
      | tail _ hy => exact hall y hy
    · obtain ⟨e,heq,hstart,hall⟩ := ih q
      refine ⟨e,by rw [if_neg hbeats,heq],hstart,?_⟩
      intro y hy
      cases hy with
      | head => exact htrans e q z hstart fun hr => hbeats ((htest q z).mpr hr)
      | tail _ hy => exact hall y hy

theorem highest_lit {qs : List ℚ} (hne : qs ≠ []) : ∃ h, highest (qs.map lit : List F)=lit h ∧ ∀ q ∈ qs, q ≤ h := by
  obtain ⟨q,qs,rfl⟩ := List.exists_cons_of_ne_nil hne
  obtain ⟨h,heq,hstart,hall⟩ := foldl_extreme (F := F) (r := (· < ·)) lt
    (fun a b => by rw [lt_lit,decide_eq_true_eq]) (fun a b => lt_asymm)
    (fun a b c hab hbc => not_lt.mpr ((not_lt.mp hbc).trans (not_lt.mp hab))) qs q
  refine ⟨h,?_,?_⟩
  · rw [highest,List.map_cons,List.foldl_cons,negInfinity_lt,if_pos rfl]
    exact heq
  · intro z hz
    cases hz with
    | head => exact not_lt.mp hstart
    | tail _ hz => exact not_lt.mp (hall z hz)

theorem lowest_lit {qs : List ℚ} (hne : qs ≠ []) : ∃ l, lowest (qs.map lit : List F)=lit l ∧ ∀ q ∈ qs, l ≤ q := by
  obtain ⟨q,qs,rfl⟩ := List.exists_cons_of_ne_nil hne
  obtain ⟨l,heq,hstart,hall⟩ := foldl_extreme (F := F) (r := (· > ·)) (fun a b => lt b a)
    (fun a b => by rw [lt_lit,decide_eq_true_eq]) (fun a b => lt_asymm)
    (fun a b c hab hbc => not_lt.mpr ((not_lt.mp hab).trans (not_lt.mp hbc))) qs q
  refine ⟨l,?_,?_⟩
  · rw [lowest,List.map_cons,List.foldl_cons,lt_infinity,if_pos rfl]
    exact heq
  · intro z hz
    cases hz with
    | head => exact not_lt.mp hstart
    | tail _ hz => exact not_lt.mp (hall z hz)

theorem position_within {v l h : ℚ} (hl : l ≤ v) (hh : v ≤ h) : Within 0 100 (position (lit v : F) (lit l) (lit h)) := by
  unfold position
  rw [same_lit]
  by_cases heq : h=l
  · rw [if_pos (decide_eq_true heq)]
    exact holds_lit ⟨by norm_num,by norm_num⟩
  · have hpos : 0<h-l := sub_pos.mpr (lt_of_le_of_ne (hl.trans hh) (Ne.symm heq))
    rw [if_neg (by simpa using heq),sub_lit,sub_lit,div_lit _ hpos.ne',mul_lit]
    exact holds_lit (percent_mem (sub_nonneg.mpr hl) (sub_le_sub_right hh l) hpos)

/-- An empty window has no position. -/
theorem position_empty (v : ℚ) : position (lit v : F) (lowest []) (highest [])=nan := by
  change (if le negInfinity infinity && le infinity negInfinity then lit 50
    else mul (div (sub (lit v) infinity) (sub negInfinity infinity)) (lit 100))=(nan : F)
  rw [le_infinity,Bool.and_false,if_neg Bool.false_ne_true,sub_infinity,negInfinity_sub_infinity,
    div_negInfinity,nan_mul]

/-- Between the extremes of a window that has the value. -/
theorem position_window {qs : List ℚ} {v : ℚ} (h : qs=[] ∨ v ∈ qs) :
    Within 0 100 (position (lit v : F) (lowest (qs.map lit)) (highest (qs.map lit))) := by
  cases h with
  | inl hempty =>
    rw [hempty]
    exact .inl (position_empty v)
  | inr hmem =>
    obtain ⟨l,hl,hle⟩ := lowest_lit (F := F) (List.ne_nil_of_mem hmem)
    obtain ⟨h,hh,hge⟩ := highest_lit (F := F) (List.ne_nil_of_mem hmem)
    rw [hl,hh]
    exact position_within (hle v hmem) (hge v hmem)

/-- The range of the last bars encloses the close of the last of them. -/
theorem window_range (hks : ∀ k ∈ ks, k.WellFormed) (n : ℕ) {k : Bar ℚ} (hk : ks[i]?=some k) :
    window n ks i=[] ∨ ∃ l h, lowest (lows (window n (lift F ks) i))=lit l ∧
      highest (highs (window n (lift F ks) i))=lit h ∧ l ≤ k.close ∧ k.close ≤ h := by
  cases n with
  | zero =>
    left
    unfold window
    exact List.drop_of_length_le (List.length_take_le _ _)
  | succ n =>
    right
    have hmem := mem_window (n := n+1) (Nat.succ_pos n) hk
    have hwf := hks k (mem_of_mem_window hmem)
    have hlows : lows (window (n+1) (lift F ks) i)=((window (n+1) ks i).map fun k => k.low).map lit := by
      rw [lift,window_map]
      simp [lows,Bar.lift]
    have hhighs : highs (window (n+1) (lift F ks) i)=((window (n+1) ks i).map fun k => k.high).map lit := by
      rw [lift,window_map]
      simp [highs,Bar.lift]
    have hlow : k.low ∈ (window (n+1) ks i).map fun k => k.low := List.mem_map_of_mem hmem
    have hhigh : k.high ∈ (window (n+1) ks i).map fun k => k.high := List.mem_map_of_mem hmem
    obtain ⟨l,hl,hle⟩ := lowest_lit (F := F) (List.ne_nil_of_mem hlow)
    obtain ⟨h,hh,hge⟩ := highest_lit (F := F) (List.ne_nil_of_mem hhigh)
    exact ⟨l,h,by rw [hlows,hl],by rw [hhighs,hh],(hle _ hlow).trans hwf.low_close,
      hwf.close_high.trans (hge _ hhigh)⟩

/-! `rsi`. -/

theorem change_lift {qs : List ℚ} (hi : i<qs.length) : ∃ d, change (qs.map lit : List F) i=lit d := by
  obtain ⟨q,hq⟩ := getElem?_of_lt_length hi
  obtain ⟨p,hp⟩ := getElem?_of_lt_length (show i-1<qs.length by omega)
  exact ⟨q-p,by rw [change,getD_lit hq,getD_lit hp,sub_lit]⟩

theorem gains_nonneg (qs : List ℚ) : All (fun q => 0 ≤ q) (gains (qs.map lit : List F)) := by
  apply all_along
  intro i hi
  rw [List.length_map] at hi
  obtain ⟨d,hd⟩ := change_lift (F := F) hi
  rw [hd,lt_lit]
  split
  · exact holds_nan
  split
  · rename_i hpos
    exact holds_lit (of_decide_eq_true hpos).le
  · exact holds_lit le_rfl

theorem losses_nonneg (qs : List ℚ) : All (fun q => 0 ≤ q) (losses (qs.map lit : List F)) := by
  apply all_along
  intro i hi
  rw [List.length_map] at hi
  obtain ⟨d,hd⟩ := change_lift (F := F) hi
  rw [hd,lt_lit]
  split
  · exact holds_nan
  split
  · rename_i hneg
    rw [neg,sub_lit]
    exact holds_lit (sub_nonneg.mpr (of_decide_eq_true hneg).le)
  · exact holds_lit le_rfl

theorem rsi_within (qs : List ℚ) (period : ℕ) : ∀ x ∈ rsi (qs.map lit : List F) period, Within 0 100 x := by
  intro x hx
  obtain ⟨i,hi,rfl⟩ := List.mem_iff_getElem.mp hx
  unfold rsi at hi ⊢
  rw [List.getElem_zipWith]
  have hgain := all_iff.mp (rma_all convex_nonneg (gains_nonneg (F := F) qs) period)
  have hloss := all_iff.mp (rma_all convex_nonneg (losses_nonneg (F := F) qs) period)
  exact both_holds (hgain _ (List.getElem_mem _)) (hloss _ (List.getElem_mem _)) fun p q hp hq =>
    strength_within hp hq

/-! `stochastic`, `stochRsi` and `williamsR`. -/

theorem fastK_within (hks : ∀ k ∈ ks, k.WellFormed) (n : ℕ) : All (fun q => 0 ≤ q ∧ q ≤ 100) (fastK (lift F ks) n) := by
  apply all_along
  intro i hi
  rw [lift,List.length_map] at hi
  obtain ⟨k,hk⟩ := getElem?_of_lt_length hi
  have hclose : (closes (lift F ks)).getD i nan=lit k.close := by
    rw [closes_lift]
    exact getD_lit (by rw [List.getElem?_map,hk]; rfl)
  dsimp only
  split
  · exact holds_nan
  rw [hclose]
  cases window_range (F := F) hks n hk with
  | inl hempty =>
    rw [window_lift_nil hempty]
    exact .inl (position_empty _)
  | inr hrange =>
    obtain ⟨l,h,hl,hh,hle,hge⟩ := hrange
    rw [hl,hh]
    exact position_within hle hge

theorem mem_zipWith {α β γ : Type} {f : α → β → γ} {xs : List α} {ys : List β} {z : γ}
    (h : z ∈ List.zipWith f xs ys) : ∃ x ∈ xs, ∃ y ∈ ys, f x y=z := by
  obtain ⟨i,hi,rfl⟩ := List.mem_iff_getElem.mp h
  rw [List.getElem_zipWith]
  exact ⟨_,List.getElem_mem _,_,List.getElem_mem _,rfl⟩

theorem stochastic_within (hks : ∀ k ∈ ks, k.WellFormed) (k d smooth : ℕ) :
    ∀ p ∈ stochastic (lift F ks) k d smooth, Within 0 100 p.fastK ∧ Within 0 100 p.k ∧ Within 0 100 p.d := by
  intro p hp
  have hconvex := convex_between 0 100
  have hfast := fastK_within (F := F) hks k
  have hslow := sma_all hconvex hfast smooth
  obtain ⟨q,hq,y,hy,rfl⟩ := mem_zipWith hp
  obtain ⟨hq1,hq2⟩ := List.of_mem_zip hq
  exact ⟨all_iff.mp hfast _ hq1,all_iff.mp hslow _ hq2,all_iff.mp (sma_all hconvex hslow d) _ hy⟩

theorem filter_isFinite {w : List F} (h : ∀ x ∈ w, Holds P x) : ∃ qs : List ℚ, w.filter isFinite=qs.map lit := by
  induction w with
  | nil => exact ⟨[],rfl⟩
  | cons x w ih =>
    obtain ⟨qs,hqs⟩ := ih fun y hy => h y (List.mem_cons_of_mem _ hy)
    cases h x List.mem_cons_self with
    | inl hnan =>
      refine ⟨qs,?_⟩
      rw [hnan,List.filter_cons_of_neg (by rw [isFinite_nan]; exact Bool.false_ne_true),hqs]
    | inr hlit =>
      obtain ⟨q,rfl,-⟩ := hlit
      exact ⟨q::qs,by rw [List.filter_cons_of_pos (isFinite_lit q),hqs,List.map_cons]⟩

/-- The position of a value among the finite ones of its window. -/
theorem position_finite {xs : List F} (h : ∀ x ∈ xs, Holds P x) (hi : i<xs.length) (n : ℕ) {v : ℚ}
    (hv : xs.getD i nan=lit v) : Within 0 100 (position (lit v) (lowest ((window n xs i).filter isFinite))
      (highest ((window n xs i).filter isFinite))) := by
  obtain ⟨qs,hqs⟩ := filter_isFinite (P := P) (w := window n xs i) fun x hx => h x (mem_of_mem_window hx)
  rw [hqs]
  cases n with
  | zero =>
    have hempty : window 0 xs i=[] := List.drop_of_length_le (List.length_take_le _ _)
    rw [hempty] at hqs
    exact position_window (.inl (List.map_eq_nil_iff.mp hqs.symm))
  | succ n =>
    have hget : xs[i]?=some (lit v) := by
      rw [List.getD_eq_getElem?_getD,List.getElem?_eq_getElem hi] at hv
      rw [List.getElem?_eq_getElem hi]
      exact congrArg some hv
    have hmem : (lit v : F) ∈ (window (n+1) xs i).filter isFinite :=
      List.mem_filter.mpr ⟨mem_window (Nat.succ_pos n) hget,isFinite_lit v⟩
    rw [hqs] at hmem
    obtain ⟨q,hq,heq⟩ := List.mem_map.mp hmem
    rw [← heq]
    exact position_window (.inr hq)

theorem stochRsi_within (qs : List ℚ) (period : ℕ) : ∀ x ∈ stochRsi (qs.map lit : List F) period, Within 0 100 x := by
  apply all_iff.mp
  apply all_along
  intro i hi
  have hrsi := rsi_within (F := F) qs period
  dsimp only
  cases all_iff.mpr hrsi i with
  | inl hnan =>
    rw [hnan,isFinite_nan]
    exact holds_nan
  | inr hlit =>
    obtain ⟨v,hv,-⟩ := hlit
    split
    · exact holds_nan
    · rw [hv]
      exact position_finite hrsi hi period hv

theorem williamsR_within (hks : ∀ k ∈ ks, k.WellFormed) (period : ℕ) :
    ∀ x ∈ williamsR (lift F ks) period, Within (-100) 0 x := by
  apply all_iff.mp
  apply all_along
  intro i hi
  rw [lift,List.length_map] at hi
  obtain ⟨k,hk⟩ := getElem?_of_lt_length hi
  have hclose : (closes (lift F ks)).getD i nan=lit k.close := by
    rw [closes_lift]
    exact getD_lit (by rw [List.getElem?_map,hk]; rfl)
  dsimp only
  split
  · exact holds_nan
  rw [hclose]
  cases window_range (F := F) hks period hk with
  | inl hempty =>
    left
    rw [window_lift_nil hempty]
    change (if le negInfinity infinity && le infinity negInfinity then lit (-50)
      else mul (div (sub negInfinity (lit k.close)) (sub negInfinity infinity)) (lit (-100)))=(nan : F)
    rw [le_infinity,Bool.and_false,if_neg Bool.false_ne_true,negInfinity_sub,negInfinity_sub_infinity,
      div_negInfinity,nan_mul]
  | inr hrange =>
    obtain ⟨l,h,hl,hh,hle,hge⟩ := hrange
    rw [hl,hh,same_lit]
    by_cases heq : h=l
    · rw [if_pos (decide_eq_true heq)]
      exact holds_lit ⟨by norm_num,by norm_num⟩
    · have hpos : 0<h-l := sub_pos.mpr (lt_of_le_of_ne (hle.trans hge) (Ne.symm heq))
      rw [if_neg (by simpa using heq),sub_lit,sub_lit,div_lit _ hpos.ne',mul_lit]
      obtain ⟨hlo,hhi⟩ := percent_mem (sub_nonneg.mpr hge) (sub_le_sub_left hle h) hpos
      exact holds_lit ⟨by linarith,by linarith⟩

end
end TradeGate.Indicators
