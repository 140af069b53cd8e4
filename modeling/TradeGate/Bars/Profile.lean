import Mathlib.Algebra.BigOperators.Intervals
import Mathlib.Algebra.Order.BigOperators.Group.Finset
import Mathlib.Tactic.FieldSimp
import Mathlib.Tactic.Linarith
import TradeGate.Model.VolumeProfile

/-! The bins of the volume profile hold the volume of the window, and its value area the share asked for. -/
namespace TradeGate.Indicators
open Finset

/-! Extremes of a list. -/

theorem le_foldl_max (xs : List ℚ) (x : ℚ) : x ≤ xs.foldl max x ∧ ∀ y ∈ xs, y ≤ xs.foldl max x := by
  induction xs generalizing x with
  | nil => exact ⟨le_rfl,by simp⟩
  | cons a xs ih =>
    obtain ⟨hstart,hrest⟩ := ih (max x a)
    refine ⟨(le_max_left _ _).trans hstart,?_⟩
    intro y hy
    cases hy with
    | head => exact (le_max_right _ _).trans hstart
    | tail _ hy => exact hrest y hy

theorem foldl_min_le (xs : List ℚ) (x : ℚ) : xs.foldl min x ≤ x ∧ ∀ y ∈ xs, xs.foldl min x ≤ y := by
  induction xs generalizing x with
  | nil => exact ⟨le_rfl,by simp⟩
  | cons a xs ih =>
    obtain ⟨hstart,hrest⟩ := ih (min x a)
    refine ⟨hstart.trans (min_le_left _ _),?_⟩
    intro y hy
    cases hy with
    | head => exact hstart.trans (min_le_right _ _)
    | tail _ hy => exact hrest y hy

theorem le_maxOf {xs : List ℚ} {x : ℚ} (h : x ∈ xs) : x ≤ maxOf xs := by
  cases h with
  | head xs => exact (le_foldl_max xs x).1
  | tail a h => exact (le_foldl_max _ a).2 x h

theorem minOf_le {xs : List ℚ} {x : ℚ} (h : x ∈ xs) : minOf xs ≤ x := by
  cases h with
  | head xs => exact (foldl_min_le xs x).1
  | tail a h => exact (foldl_min_le _ a).2 x h

section
variable {lo step : ℚ} {bins : ℕ} {acc : ℕ → ℚ} {k : Bar ℚ} {target : ℚ} {a : ValueArea}

theorem total_eq (acc : ℕ → ℚ) (bins : ℕ) : total acc bins=∑ b ∈ range bins, acc b := by
  unfold total
  rw [← List.sum_eq_foldl]
  rfl

/-! Bars are spread over the bins. -/

theorem binOf_lt (hbins : 2 ≤ bins) (price : ℚ) : binOf lo step bins price<bins := by
  unfold binOf
  omega

theorem binOf_mono (hstep : 0<step) {p q : ℚ} (h : p ≤ q) : binOf lo step bins p ≤ binOf lo step bins q := by
  have hfloor : ⌊(p-lo)/step⌋ ≤ ⌊(q-lo)/step⌋ :=
    Int.floor_mono (div_le_div_of_nonneg_right (sub_le_sub_right h lo) hstep.le)
  unfold binOf
  omega

/-- Within the grid a price is in its bin. -/
theorem binOf_spec (hstep : 0<step) (hbins : 2 ≤ bins) {p : ℚ} (hlo : lo ≤ p) (hhi : p ≤ lo+step*bins) :
    lo+step*(binOf lo step bins p : ℕ) ≤ p ∧ p ≤ lo+step*((binOf lo step bins p : ℕ)+1) := by
  have hpos : 0 ≤ (p-lo)/step := div_nonneg (sub_nonneg.mpr hlo) hstep.le
  have hfloor : 0 ≤ ⌊(p-lo)/step⌋ := Int.floor_nonneg.mpr hpos
  have hle : (⌊(p-lo)/step⌋ : ℚ)*step ≤ p-lo := (le_div_iff₀ hstep).mp (Int.floor_le _)
  have hlt : p-lo<((⌊(p-lo)/step⌋ : ℚ)+1)*step := (div_lt_iff₀ hstep).mp (Int.lt_floor_add_one _)
  by_cases hlast : ⌊(p-lo)/step⌋ ≤ (bins-1 : ℤ)
  · have heq : (binOf lo step bins p : ℤ)=⌊(p-lo)/step⌋ := by
      unfold binOf
      omega
    have hcast : ((binOf lo step bins p : ℕ) : ℚ)=(⌊(p-lo)/step⌋ : ℚ) := by
      rw [← heq]
      norm_cast
    rw [hcast]
    constructor <;> linarith
  · have heq : (binOf lo step bins p : ℤ)+1=bins := by
      unfold binOf
      omega
    have hcast : ((binOf lo step bins p : ℕ) : ℚ)+1=(bins : ℚ) := by exact_mod_cast heq
    have hfar : (bins : ℚ) ≤ (⌊(p-lo)/step⌋ : ℚ) := by
      have hint : (bins : ℤ) ≤ ⌊(p-lo)/step⌋ := by omega
      exact_mod_cast hint
    have hmul : (bins : ℚ)*step ≤ (⌊(p-lo)/step⌋ : ℚ)*step := mul_le_mul_of_nonneg_right hfar hstep.le
    have hbin : step*((binOf lo step bins p : ℕ) : ℚ)=step*bins-step := by
      rw [← hcast]
      ring
    constructor
    · rw [hbin]
      linarith
    · rw [hcast]
      exact hhi

theorem spread_nonneg (hstep : 0<step) (hk : k.WellFormed) (h : ∀ b, 0 ≤ acc b) (b : ℕ) :
    0 ≤ spread lo step bins acc k b := by
  unfold spread
  split
  · exact h b
  · rename_i hvol
    dsimp only
    split
    · have hle : binOf lo step bins k.low ≤ binOf lo step bins k.high :=
        binOf_mono hstep (hk.low_close.trans hk.close_high)
      have hcast : ((binOf lo step bins k.low : ℕ) : ℚ) ≤ (binOf lo step bins k.high : ℕ) := by exact_mod_cast hle
      have hcount : 0<((binOf lo step bins k.high : ℕ) : ℚ)-(binOf lo step bins k.low : ℕ)+1 := by linarith
      exact add_nonneg (h b) (div_nonneg (not_le.mp hvol).le hcount.le)
    · exact h b

/-- A bar adds its volume. -/
theorem sum_spread (hstep : 0<step) (hbins : 2 ≤ bins) (hk : k.WellFormed) :
    ∑ b ∈ range bins, spread lo step bins acc k b=∑ b ∈ range bins, acc b+k.volume := by
  unfold spread
  split
  · rename_i hvol
    rw [le_antisymm hvol hk.volume_nonneg,add_zero]
  · set i := binOf lo step bins k.low with hi
    set j := binOf lo step bins k.high with hj
    have hij : i ≤ j := binOf_mono hstep (hk.low_close.trans hk.close_high)
    have hlast : j<bins := binOf_lt hbins k.high
    have hcount : ((j+1-i : ℕ) : ℚ)=(j : ℚ)-i+1 := by
      rw [Nat.cast_sub (by omega)]
      push_cast
      ring
    have hne : (j : ℚ)-i+1 ≠ 0 := by
      rw [← hcount]
      exact Nat.cast_ne_zero.mpr (by omega)
    have hin : range bins ∩ Icc i j=Icc i j := by
      apply inter_eq_right.mpr
      intro b hb
      exact mem_range.mpr (lt_of_le_of_lt (mem_Icc.mp hb).2 hlast)
    calc ∑ b ∈ range bins, (if i ≤ b ∧ b ≤ j then acc b+k.volume/((j : ℚ)-i+1) else acc b)
        =∑ b ∈ range bins, (acc b+if b ∈ Icc i j then k.volume/((j : ℚ)-i+1) else 0) := by
          apply sum_congr rfl
          intro b _
          simp only [mem_Icc]
          split <;> simp
      _ =∑ b ∈ range bins, acc b+((j+1-i : ℕ) : ℚ)*(k.volume/((j : ℚ)-i+1)) := by
          rw [sum_add_distrib,sum_ite_mem,hin,sum_const,Nat.card_Icc,nsmul_eq_mul]
      _ =∑ b ∈ range bins, acc b+k.volume := by rw [hcount,mul_div_cancel₀ _ hne]

theorem sum_foldl_spread (lo : ℚ) (hstep : 0<step) (hbins : 2 ≤ bins) (win : List (Bar ℚ))
    (hwin : ∀ k ∈ win, k.WellFormed) (h : ∀ b, 0 ≤ acc b) :
    (∀ b, 0 ≤ win.foldl (spread lo step bins) acc b) ∧
      ∑ b ∈ range bins, win.foldl (spread lo step bins) acc b =
        ∑ b ∈ range bins, acc b+(win.map fun k => k.volume).sum := by
  induction win generalizing acc with
  | nil => simp [h]
  | cons k win ih =>
    have hk := hwin k List.mem_cons_self
    obtain ⟨hpos,hsum⟩ := ih (fun k hk => hwin k (List.mem_cons_of_mem _ hk)) (spread_nonneg hstep hk h)
    refine ⟨hpos,?_⟩
    rw [List.foldl_cons,hsum,sum_spread hstep hbins hk,List.map_cons,List.sum_cons,add_assoc]

/-! The point of control. -/

theorem pocOf_lt (hbins : 2 ≤ bins) (acc : ℕ → ℚ) : pocOf acc bins<bins := by
  have hfold : ∀ (bs : List ℕ) (poc : ℕ), poc<bins → (∀ b ∈ bs, b<bins) →
      bs.foldl (fun poc b => if acc poc<acc b then b else poc) poc<bins := by
    intro bs
    induction bs with
    | nil => exact fun _ hpoc _ => hpoc
    | cons b bs ih =>
      intro poc hpoc hbs
      apply ih _ _ fun b hb => hbs b (List.mem_cons_of_mem _ hb)
      dsimp only
      split
      · exact hbs b List.mem_cons_self
      · exact hpoc
  apply hfold _ 0 (by omega)
  intro b hb
  obtain ⟨hlo,hhi⟩ := List.mem_range'_1.mp hb
  omega

/-! The value area grows. -/

/-- The area is inside the grid, around the point of control, and counts what its bins hold. -/
structure ValueArea.Sound (acc : ℕ → ℚ) (bins poc : ℕ) (a : ValueArea) : Prop where
  lo_le : a.loIdx ≤ poc
  le_hi : poc ≤ a.hiIdx
  hi_lt : a.hiIdx<bins
  covered : a.covered=∑ b ∈ Icc a.loIdx a.hiIdx, acc b

theorem sum_Icc_pred {i j : ℕ} (h : 0 < i) (hij : i ≤ j) (f : ℕ → ℚ) :
    ∑ b ∈ Icc (i-1) j, f b=∑ b ∈ Icc i j, f b+f (i-1) := by
  obtain ⟨i,rfl⟩ := Nat.exists_eq_succ_of_ne_zero h.ne'
  have hsplit : Icc i j=insert i (Icc (i+1) j) := by
    ext b
    simp only [mem_insert,mem_Icc]
    omega
  rw [Nat.succ_eq_add_one,Nat.add_sub_cancel,hsplit,sum_insert (by simp),add_comm]

/-- A round adds one bin on one of the sides. -/
theorem ValueArea.Sound.widen {poc : ℕ} (ha : a.Sound acc bins poc) (hacc : ∀ b, 0 ≤ acc b)
    (hgrow : a.growing bins target=true) : (a.widen acc bins).Sound acc bins poc ∧
      (a.widen acc bins).hiIdx+a.loIdx=a.hiIdx+(a.widen acc bins).loIdx+1 := by
  have hroom : 0<a.loIdx ∨ a.hiIdx<bins-1 := by
    unfold ValueArea.growing at hgrow
    simpa using (Bool.and_eq_true _ _ |>.mp hgrow).2
  have hij := ha.lo_le.trans ha.le_hi
  unfold ValueArea.widen
  dsimp only
  by_cases hup : (if 0<a.loIdx then acc (a.loIdx-1) else -1) ≤ if a.hiIdx<bins-1 then acc (a.hiIdx+1) else -1
  · rw [if_pos hup]
    have hhi : a.hiIdx<bins-1 := by
      by_contra hfull
      have hlo := hroom.resolve_right hfull
      rw [if_pos hlo,if_neg hfull] at hup
      have hpos := hacc (a.loIdx-1)
      linarith
    refine ⟨⟨ha.lo_le,ha.le_hi.trans (Nat.le_succ _),by dsimp only; omega,?_⟩,by dsimp only; omega⟩
    dsimp only
    rw [if_pos hhi,max_eq_right (hacc _),sum_Icc_succ_top (by omega),ha.covered]
  · rw [if_neg hup]
    have hlo : 0<a.loIdx := by
      by_contra hfull
      have hhi := hroom.resolve_left hfull
      rw [if_neg hfull,if_pos hhi] at hup
      have hpos := hacc (a.hiIdx+1)
      linarith
    refine ⟨⟨(Nat.sub_le _ _).trans ha.lo_le,ha.le_hi,ha.hi_lt,?_⟩,by dsimp only; omega⟩
    dsimp only
    rw [if_pos hlo,max_eq_right (hacc _),sum_Icc_pred hlo hij,ha.covered]

theorem ValueArea.grow_of_full (h : a.growing bins target=false) (rounds : ℕ) :
    ValueArea.grow acc bins target rounds a=a := by
  cases rounds with
  | zero => rfl
  | succ rounds =>
    rw [ValueArea.grow,h]
    rfl

/-- As many rounds as bins are left end the loop, and more change nothing. -/
theorem ValueArea.Sound.grow {poc : ℕ} (ha : a.Sound acc bins poc) (hacc : ∀ b, 0 ≤ acc b) (target : ℚ) {rounds : ℕ}
    (hrounds : bins ≤ rounds+a.hiIdx+1-a.loIdx) :
    (ValueArea.grow acc bins target rounds a).Sound acc bins poc ∧
    (ValueArea.grow acc bins target rounds a).growing bins target=false ∧
    ∀ more, ValueArea.grow acc bins target (rounds+more) a=ValueArea.grow acc bins target rounds a := by
  induction rounds generalizing a with
  | zero =>
    have hfull : a.growing bins target=false := by
      have hhi := ha.hi_lt
      have hlo := ha.lo_le.trans ha.le_hi
      unfold ValueArea.growing
      rw [Bool.and_eq_false_iff]
      right
      simp only [Bool.or_eq_false_iff,decide_eq_false_iff_not]
      omega
    exact ⟨ha,hfull,fun more => ValueArea.grow_of_full hfull _⟩
  | succ rounds ih =>
    cases hgrow : a.growing bins target with
    | false =>
      rw [ValueArea.grow_of_full hgrow]
      exact ⟨ha,hgrow,fun more => ValueArea.grow_of_full hgrow _⟩
    | true =>
      obtain ⟨hwide,hcount⟩ := ha.widen hacc hgrow
      have hlo := ha.lo_le.trans ha.le_hi
      have hlo' := hwide.lo_le.trans hwide.le_hi
      obtain ⟨hsound,hstop,hmore⟩ := ih hwide (by omega)
      rw [ValueArea.grow,hgrow]
      refine ⟨hsound,hstop,?_⟩
      intro more
      rw [Nat.add_right_comm,ValueArea.grow,hgrow]
      exact hmore more

/-- When the loop ends the area holds the target, if all the bins together do. -/
theorem ValueArea.Sound.target_le {poc : ℕ} (ha : a.Sound acc bins poc)
    (hall : target ≤ ∑ b ∈ range bins, acc b) (hstop : a.growing bins target=false) : target ≤ a.covered := by
  by_contra hlt
  have hfull : a.loIdx=0 ∧ a.hiIdx=bins-1 := by
    have hhi := ha.hi_lt
    unfold ValueArea.growing at hstop
    rw [decide_eq_true (not_le.mp hlt),Bool.true_and,Bool.or_eq_false_iff] at hstop
    simp only [decide_eq_false_iff_not] at hstop
    omega
  have hgrid : Icc 0 (bins-1)=range bins := by
    ext b
    simp only [mem_Icc,mem_range]
    have hhi := ha.hi_lt
    omega
  rw [ha.covered,hfull.1,hfull.2,hgrid] at hlt
  exact hlt hall

end

/-- The price is within half a bin of its middle. -/
def Bin.Holds (width : ℚ) (b : Bin) (x : ℚ) : Prop := |x-b.price| ≤ width/2

theorem sum_filter_volume (bs : List Bin) (P : Bin → Bool) :
    ((bs.filter P).map fun b => b.volume).sum=(bs.map fun b => if P b then b.volume else 0).sum := by
  induction bs with
  | nil => rfl
  | cons b bs ih =>
    cases hP : P b with
    | true => rw [List.filter_cons_of_pos hP,List.map_cons,List.map_cons,List.sum_cons,List.sum_cons,ih,if_pos hP]
    | false =>
      rw [List.filter_cons_of_neg (by simp [hP]),List.map_cons,List.sum_cons,ih,hP,if_neg (by simp),zero_add]

/-- The middle of a bin is between two edges of the grid when the bin is. -/
theorem priceOf_between {g : Grid} (hstep : 0<g.step) (b i j : ℕ) :
    g.lo+g.step*i<g.priceOf b ∧ g.priceOf b<g.lo+g.step*(j+1) ↔ i ≤ b ∧ b ≤ j := by
  have hhalf : ∀ n m : ℕ, (n : ℚ) < m+1/2 ↔ n ≤ m := by
    intro n m
    constructor
    · intro hlt
      by_contra hle
      have hcast : ((m : ℕ) : ℚ)+1 ≤ n := by exact_mod_cast Nat.succ_le_of_lt (not_le.mp hle)
      linarith
    · intro hle
      have hcast : (n : ℚ) ≤ m := by exact_mod_cast hle
      linarith
  have hupper : (b : ℚ)+1/2<j+1 ↔ (b : ℚ)<j+1/2 := by
    constructor <;> intro hlt <;> linarith
  unfold Grid.priceOf
  rw [add_lt_add_iff_left,add_lt_add_iff_left,mul_lt_mul_iff_right₀ hstep,mul_lt_mul_iff_right₀ hstep,hupper,
    hhalf,hhalf]

/-- The volume of the bins between two edges. -/
theorem sum_block {g : Grid} (bins : ℕ) (hstep : 0<g.step) (i : ℕ) {j : ℕ} (hj : j<bins) :
    ((((List.range bins).map fun b => (⟨g.priceOf b,g.acc b⟩ : Bin)).filter fun b =>
      g.lo+g.step*i<b.price ∧ b.price<g.lo+g.step*(j+1)).map fun b => b.volume).sum=∑ b ∈ Icc i j, g.acc b := by
  have hin : range bins ∩ Icc i j=Icc i j := by
    apply inter_eq_right.mpr
    intro b hb
    exact mem_range.mpr (lt_of_le_of_lt (mem_Icc.mp hb).2 hj)
  rw [sum_filter_volume,List.map_map,← hin,← sum_ite_mem]
  change ∑ b ∈ range bins, (if decide (g.lo+g.step*i<g.priceOf b ∧ g.priceOf b<g.lo+g.step*(j+1))=true
    then g.acc b else 0)=_
  apply sum_congr rfl
  intro b _
  simp only [decide_eq_true_eq,priceOf_between hstep,mem_Icc]

/-- The growth loop ends, after as many rounds as there are bins at the most; the bins hold the volume of
the window; the point of control is inside the value area; every price from the lowest low of the window to
its highest high is in a bin; and the bins of the value area hold the share asked for. -/
theorem volumeProfile_sound (ks : List (Bar ℚ)) (hks : ∀ k ∈ ks, k.WellFormed) (bins lookback : ℕ) (pct : ℚ)
    (hle : pct ≤ 1) (p : VolumeProfile) (h : volumeProfile ks bins lookback pct=some p) :
    let win := profileWindow ks lookback
    let g := gridOf win bins
    let volume := (win.map fun k => k.volume).sum
    (areaOf g bins pct bins).growing bins (total g.acc bins*pct)=false ∧
    (∀ more, areaOf g bins pct (bins+more)=areaOf g bins pct bins) ∧
    (p.bins.map fun b => b.volume).sum=volume ∧
    p.val<p.poc ∧ p.poc<p.vah ∧
    (∀ k ∈ win, ∀ k' ∈ win, ∀ x, k.low ≤ x → x ≤ k'.high → ∃ b ∈ p.bins, b.Holds g.step x) ∧
    pct*volume ≤ ((p.bins.filter fun b => p.val<b.price ∧ b.price<p.vah).map fun b => b.volume).sum := by
  intro win g volume
  unfold volumeProfile at h
  dsimp only at h
  split at h
  · cases h
  rename_i hsize
  split at h
  · cases h
  rename_i hrange
  cases h
  have hbins : 2 ≤ bins := by
    push Not at hsize
    exact hsize.2
  have hbinsQ : (0 : ℚ)<bins := by exact_mod_cast (by omega : 0<bins)
  have hstep : 0<g.step := div_pos (sub_pos.mpr (not_not.mp hrange)) hbinsQ
  have hwin : ∀ k ∈ win, k.WellFormed := fun k hk => hks k (List.mem_of_mem_drop hk)
  obtain ⟨hacc,hsum⟩ := sum_foldl_spread g.lo hstep hbins win hwin (fun _ => le_refl (0 : ℚ))
  rw [sum_const_zero,zero_add] at hsum
  change ∑ b ∈ range bins, g.acc b=volume at hsum
  have hstart : (⟨pocOf g.acc bins,pocOf g.acc bins,g.acc (pocOf g.acc bins)⟩ : ValueArea).Sound g.acc bins
      (pocOf g.acc bins) := ⟨le_rfl,le_rfl,pocOf_lt hbins _,by simp⟩
  obtain ⟨hsound,hstop,hmore⟩ := hstart.grow hacc (total g.acc bins*pct)
    (show bins ≤ bins+pocOf g.acc bins+1-pocOf g.acc bins by omega)
  change ValueArea.Sound g.acc bins (pocOf g.acc bins) (areaOf g bins pct bins) at hsound
  change (areaOf g bins pct bins).growing bins (total g.acc bins*pct)=false at hstop
  have hvolume : 0 ≤ volume := by
    rw [← hsum]
    exact sum_nonneg fun b _ => hacc b
  have htotal : total g.acc bins*pct=pct*volume := by rw [total_eq,hsum,mul_comm]
  obtain ⟨hval,hvah⟩ := (priceOf_between hstep (pocOf g.acc bins) _ _).mpr ⟨hsound.lo_le,hsound.le_hi⟩
  refine ⟨hstop,hmore,?_,hval,hvah,?_,?_⟩
  · rw [← hsum,List.map_map]
    rfl
  · intro k hk k' hk' x hlo hhi
    have hleft : g.lo ≤ x := (minOf_le (List.mem_map_of_mem hk)).trans hlo
    have hright : x ≤ g.lo+g.step*bins := by
      have hwidth : g.step*bins=maxOf (win.map fun k => k.high)-g.lo := div_mul_cancel₀ _ hbinsQ.ne'
      have hmax : k'.high ≤ maxOf (win.map fun k => k.high) := le_maxOf (List.mem_map_of_mem hk')
      rw [hwidth]
      linarith
    obtain ⟨hfrom,hto⟩ := binOf_spec hstep hbins hleft hright
    refine ⟨⟨g.priceOf (binOf g.lo g.step bins x),g.acc (binOf g.lo g.step bins x)⟩,?_,?_⟩
    · exact List.mem_map_of_mem (List.mem_range.mpr (binOf_lt hbins x))
    · change |x-(g.lo+g.step*((binOf g.lo g.step bins x : ℕ)+1/2))| ≤ g.step/2
      rw [abs_le]
      constructor <;> linarith
  · have hheld := sum_block bins hstep (areaOf g bins pct bins).loIdx hsound.hi_lt
    rw [← hsound.covered] at hheld
    refine le_of_le_of_eq ?_ hheld.symm
    rw [← htotal]
    apply hsound.target_le _ hstop
    rw [htotal,hsum]
    exact mul_le_of_le_one_left hvolume hle

/-- Two bars that share a part of their ranges. -/
def tradedBars : List (Bar ℚ) :=
  [{ openPrice := 2, high := 3, low := 1, close := 2, openTime := 0, volume := 4 },
    { openPrice := 2, high := 5, low := 2, close := 4, openTime := 60000, volume := 8 }]

theorem volumeProfile_sound_tradedBars :
    ∃ p, volumeProfile tradedBars 4 120 (7/10)=some p ∧ p.val<p.poc ∧ p.poc<p.vah := by
  have hwf : ∀ k ∈ tradedBars, k.WellFormed := by
    intro k hk
    cases hk with
    | head => exact ⟨⟨by norm_num,by norm_num,by norm_num,by norm_num⟩,by norm_num,by norm_num⟩
    | tail _ hk =>
      rw [List.mem_singleton.mp hk]
      exact ⟨⟨by norm_num,by norm_num,by norm_num,by norm_num⟩,by norm_num,by norm_num⟩
  have hsome : (volumeProfile tradedBars 4 120 (7/10)).isSome=true := by decide +kernel
  obtain ⟨p,hp⟩ := Option.isSome_iff_exists.mp hsome
  obtain ⟨-,-,-,hval,hvah,-⟩ := volumeProfile_sound tradedBars hwf 4 120 (7/10) (by norm_num) p hp
  exact ⟨p,hp,hval,hvah⟩

end TradeGate.Indicators
