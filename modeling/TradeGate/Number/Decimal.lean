import Mathlib.Tactic.Positivity
import TradeGate.Number.Print

/-! The text of a decimal number is read back as the number. -/
namespace Js
open Double

/-- The digits of a number without its last zeros. -/
theorem ofDigitChars_shortened (m : ℕ) :
    let cs := (toString m).toList
    let ds := (cs.reverse.dropWhile fun c => c = '0').reverse
    ds.length ≤ cs.length ∧ m=10^(cs.length-ds.length)*Nat.ofDigitChars 10 ds 0 ∧
      ∀ c ∈ ds, c.isDigit=true := by
  intro cs ds
  have hcs : ds ++ List.replicate (cs.length-ds.length) '0'=cs := append_zeros cs
  refine ⟨?_,?_,fun c hc => isDigit_of_mem_natText (n := m) ?_⟩
  · have := congrArg List.length hcs
    rw [List.length_append,List.length_replicate] at this
    omega
  · have hm : Nat.ofDigitChars 10 cs 0=m := by
      rw [show cs=(toString m).toList from rfl,natText_toList,Nat.ofDigitChars_ten_toDigits]
    rw [← hcs,Nat.ofDigitChars_append,Nat.ofDigitChars_replicate_zero] at hm
    exact hm.symm
  · rw [show (toString m).toList=cs from rfl,← hcs]
    exact List.mem_append_left _ hc

theorem isDigit_of_mem_zeros {n : ℕ} {c : Char} (h : c ∈ List.replicate n '0') : c.isDigit=true := by
  rw [List.eq_of_mem_replicate h]
  rfl

theorem ten_pow_pos (n : ℕ) : (0 : ℚ)<10^n := by positivity

/-- How far the digits of a number reach on both sides of the point. -/
theorem length_natText_bounds {x : ℚ} {m d : ℕ} (hm : x*10^d=m) (hlo : 1/10^6 ≤ x) (hhi : x<10^21) :
    (toString m).toList.length ≤ 21+d ∧ d<(toString m).toList.length+6 := by
  have hlen : ∀ n, 0<n → ((toString m).toList.length ≤ n ↔ m<10^n) := by
    intro n hn
    rw [natText_toList]
    exact Nat.length_toDigits_le_iff (by decide) hn
  have hpos : 0<(toString m).toList.length := by
    rw [natText_toList]
    exact List.length_pos_iff.mpr Nat.toDigits_ne_nil
  constructor
  · refine (hlen _ (by omega)).mpr ?_
    have := mul_lt_mul_of_pos_right hhi (ten_pow_pos d)
    rw [hm,← pow_add] at this
    exact_mod_cast this
  · by_contra hd
    push Not at hd
    have hmd : m<10^(d-6) := (hlen _ (by omega)).mp (by omega)
    have hx := mul_le_mul_of_nonneg_right hlo (ten_pow_pos d).le
    rw [hm,show d=6+(d-6) by omega,pow_add] at hx
    have : (m : ℚ)<10^(d-6) := by exact_mod_cast hmd
    linarith

section
variable {x v : ℚ} {a b d t : ℕ}

theorem scaled_up (h : x*10^d=10^a*v) (ha : a=t+d) : 10^t*v=x := by
  refine mul_right_cancel₀ (ten_pow_pos d).ne' ?_
  rw [h,ha,pow_add]
  ring

theorem scaled_down (h : x*10^d=10^a*v) (hd : a+b=d) : v/10^b=x := by
  refine mul_right_cancel₀ (ten_pow_pos d).ne' ?_
  rw [h,← hd,pow_add,div_mul_eq_mul_div,div_eq_iff (ten_pow_pos b).ne']
  ring

end

/-- A number with finitely many decimals, written without an exponent. -/
theorem ofText_numberText {x : ℚ} {j : ℕ} (hj : x.den ∣ 10^j) (hlo : 1/10^6 ≤ x) (hhi : x<10^21) :
    Num.ofText (numberText x)=.fin x := by
  have hpos : 0<x := lt_of_lt_of_le (by norm_num) hlo
  have hm := natCast_of_den_dvd hpos.le (den_dvd_decimalsOf hj)
  unfold numberText
  rw [if_neg hpos.ne',if_neg hpos.not_gt]
  dsimp only
  rw [String.empty_append]
  generalize ⌊|x| * 10^decimalsOf x⌋.toNat=m at hm ⊢
  generalize decimalsOf x=d at hm ⊢
  obtain ⟨hhigh,hlow⟩ := length_natText_bounds hm hlo hhi
  obtain ⟨hk,hv,hds⟩ := ofDigitChars_shortened m
  rw [String.length]
  generalize ((toString m).toList.reverse.dropWhile fun c => decide (c = '0')).reverse=ds at hk hv hds ⊢
  generalize (toString m).toList.length=len at hk hv hhigh hlow ⊢
  have hx : x*10^d=10^(len-ds.length)*(Nat.ofDigitChars 10 ds 0 : ℚ) := by
    rw [hm]
    exact_mod_cast hv
  have hne : ds ≠ [] := by
    rintro rfl
    rw [Nat.ofDigitChars_nil,Nat.cast_zero,mul_zero] at hx
    exact (mul_pos hpos (ten_pow_pos d)).ne' hx
  have hpos : 0<ds.length := List.length_pos_iff.mpr hne
  by_cases h₁ : (ds.length : ℤ) ≤ len-d ∧ (len-d : ℤ) ≤ 21
  · rw [if_pos h₁]
    have ht : len-ds.length=(len-d-ds.length : ℤ).toNat+d := by omega
    generalize (len-d-ds.length : ℤ).toNat=t at ht ⊢
    rw [zeros,← String.ofList_append,Num.ofText_digits (by simp [hne]),Nat.ofDigitChars_append,
      Nat.ofDigitChars_replicate_zero]
    · congr 1
      exact_mod_cast scaled_up hx ht
    · intro c hc
      rcases List.mem_append.mp hc with hc|hc
      · exact hds c hc
      · exact isDigit_of_mem_zeros hc
  rw [if_neg h₁]
  by_cases h₂ : (0 : ℤ)<len-d ∧ (len-d : ℤ) ≤ 21
  · rw [if_pos h₂]
    have ht : len-ds.length+(ds.length-(len-d : ℤ).toNat)=d := by omega
    have hpoint : 0<(len-d : ℤ).toNat := by omega
    generalize (len-d : ℤ).toNat=n at ht hpoint ⊢
    have htext : String.ofList (ds.take n) ++ "." ++ String.ofList (ds.drop n) =
        String.ofList (ds.take n++ '.'::ds.drop n) := by
      rw [String.append_assoc,show "."=String.ofList ['.'] from rfl,← String.ofList_append,
        ← String.ofList_append]
      rfl
    have htake : ds.take n ≠ [] := by
      rw [Ne,List.take_eq_nil_iff]
      exact not_or.mpr ⟨hpoint.ne',hne⟩
    rw [htext,Num.ofText_decimal htake (fun c hc => hds c (List.mem_of_mem_take hc)) fun c hc =>
      hds c (List.mem_of_mem_drop hc),List.take_append_drop,List.length_drop,scaled_down hx ht]
  · have h₃ : (-6 : ℤ)<len-d ∧ (len-d : ℤ) ≤ 0 := by omega
    rw [if_neg h₂,if_pos h₃]
    have ht : len-ds.length+((-(len-d : ℤ)).toNat+ds.length)=d := by omega
    generalize (-(len-d : ℤ)).toNat=n at ht ⊢
    have htext : "0." ++ zeros n ++ String.ofList ds =
        String.ofList (['0']++ '.'::(List.replicate n '0'++ds)) := by
      rw [zeros,String.append_assoc,show "0."=String.ofList ['0','.'] from rfl,← String.ofList_append,
        ← String.ofList_append]
      rfl
    have hvalue : Nat.ofDigitChars 10 (['0']++(List.replicate n '0'++ds)) 0=Nat.ofDigitChars 10 ds 0 := by
      rw [Nat.ofDigitChars_append,Nat.ofDigitChars_append,Nat.ofDigitChars_replicate_zero]
      rfl
    have hdigits : ∀ c ∈ List.replicate n '0'++ds, c.isDigit=true := by
      intro c hc
      rcases List.mem_append.mp hc with hc|hc
      · exact isDigit_of_mem_zeros hc
      · exact hds c hc
    rw [htext,Num.ofText_decimal (by simp) (by simp) hdigits,hvalue,List.length_append,
      List.length_replicate,scaled_down hx ht]

/-! Texts of a fixed number of decimals. -/

/-- A text in decimal, without a sign or an exponent. -/
def IsDecimal (t : String) : Prop := ∃ xs ys : List Char, xs ≠ [] ∧ (∀ c ∈ xs, c.isDigit=true) ∧
  (∀ c ∈ ys, c.isDigit=true) ∧ (t=String.ofList xs ∧ ys=[] ∨ t=String.ofList (xs++ '.'::ys))

/-- What is kept of the decimals of a step. -/
theorem decimals_eq {xs : List Char} (ys : List Char) (hx : ∀ c ∈ xs, c.isDigit=true) :
    decimals (String.ofList xs)=0 ∧
      decimals (String.ofList (xs++ '.'::ys))=(ys.reverse.dropWhile fun c => c = '0').length := by
  have hdrop : xs.dropWhile (fun c => c ≠ '.')=[] := by
    rw [List.dropWhile_eq_nil_iff]
    intro c hc
    have := hx c hc
    rw [decide_eq_true_iff]
    rintro rfl
    cases this
  constructor
  · rw [decimals,String.toList_ofList,hdrop]
    rfl
  · rw [decimals,String.toList_ofList,List.dropWhile_append,hdrop]
    simp

/-- A decimal text is read as a multiple of its last decimal. -/
theorem IsDecimal.read {t : String} (h : IsDecimal t) :
    ∃ n : ℕ, Num.ofText t=.fin (n/10^decimals t) := by
  obtain ⟨xs,ys,hne,hx,hy,⟨rfl,-⟩|rfl⟩ := h
  · refine ⟨Nat.ofDigitChars 10 xs 0,?_⟩
    rw [(decimals_eq [] hx).1,Num.ofText_digits hne hx,pow_zero,div_one]
  · have hys := append_zeros ys
    generalize hds : (ys.reverse.dropWhile fun c => decide (c = '0')).reverse=ds at hys
    have hlen : decimals (String.ofList (xs++ '.'::ys))=ds.length := by
      rw [(decimals_eq ys hx).2,← hds,List.length_reverse]
    have hten : (10 : ℚ)^ds.length ≠ 0 := by positivity
    have hsum : ys.length=ds.length+(ys.length-ds.length) := by
      have := congrArg List.length hys
      rw [List.length_append,List.length_replicate] at this
      omega
    refine ⟨Nat.ofDigitChars 10 (xs++ds) 0,?_⟩
    have hvalue : Nat.ofDigitChars 10 (xs++ys) 0 =
        10^(ys.length-ds.length)*Nat.ofDigitChars 10 (xs++ds) 0 := by
      conv_lhs => rw [← hys,← List.append_assoc,Nat.ofDigitChars_append,Nat.ofDigitChars_replicate_zero]
    rw [Num.ofText_decimal hne hx hy,hlen,hvalue,hsum,pow_add]
    congr 1
    push_cast
    rw [Nat.add_sub_cancel_left]
    field_simp

theorem head_natText (n : ℕ) (rest : List Char) :
    ∃ c ∈ ((toString n).toList++rest).head?, c.isDigit=true := by
  have hne : (toString n).toList ≠ [] := by
    rw [natText_toList]
    exact Nat.toDigits_ne_nil
  obtain ⟨c,hc,hd⟩ := exists_head hne fun c => isDigit_of_mem_natText
  exact ⟨c,by rw [List.head?_append,hc]; rfl,hd⟩

/-- The digits on both sides of the point. -/
theorem fixed_point (n : ℕ) {d : ℕ} (hd : 0<d) : ∃ xs ys : List Char, xs ≠ [] ∧ (∀ c ∈ xs, c.isDigit=true) ∧
    (∀ c ∈ ys, c.isDigit=true) ∧ ys.length=d ∧ Nat.ofDigitChars 10 (xs++ys) 0=n ∧
    toString (n/10^d) ++ (if d=0 then "" else "." ++
      String.ofList (List.replicate (d-(toString (n%10^d)).length) '0') ++ toString (n%10^d)) =
        String.ofList (xs++ '.'::ys) := by
  have hdigits : ∀ k : ℕ, ∀ c ∈ (toString k).toList, c.isDigit=true := fun k c => isDigit_of_mem_natText
  have hread : ∀ k : ℕ, Nat.ofDigitChars 10 (toString k).toList 0=k := by
    intro k
    rw [natText_toList,Nat.ofDigitChars_ten_toDigits]
  have hlen : (toString (n%10^d)).toList.length ≤ d := by
    rw [natText_toList]
    exact (Nat.length_toDigits_le_iff (by decide) hd).mpr (Nat.mod_lt _ (by positivity))
  refine ⟨(toString (n/10^d)).toList,
    List.replicate (d-(toString (n%10^d)).length) '0'++(toString (n%10^d)).toList,?_,hdigits _,?_,?_,?_,?_⟩
  · rw [natText_toList]
    exact Nat.toDigits_ne_nil
  · intro c hc
    rcases List.mem_append.mp hc with hc|hc
    · exact isDigit_of_mem_zeros hc
    · exact hdigits _ c hc
  · rw [List.length_append,List.length_replicate,String.length]
    omega
  · rw [← List.append_assoc,Nat.ofDigitChars_append,Nat.ofDigitChars_eq_ofDigitChars_zero,
      Nat.ofDigitChars_append,Nat.ofDigitChars_replicate_zero,hread,hread,← mul_assoc,← pow_add,
      show (toString (n%10^d)).toList.length+(d-(toString (n%10^d)).length)=d by
        rw [String.length]; omega]
    exact Nat.div_add_mod n (10^d)
  · refine String.toList_injective ?_
    rw [if_neg hd.ne']
    simp

/-- The characters of a number with a fixed number of decimals. -/
theorem fixed_digits (n d : ℕ) : ∃ cs : List Char, (∃ c ∈ cs.head?, c.isDigit=true) ∧ (∀ x ∈ cs, IsPlain x) ∧
    toString (n/10^d) ++ (if d=0 then "" else "." ++
      String.ofList (List.replicate (d-(toString (n%10^d)).length) '0') ++ toString (n%10^d)) =
        String.ofList cs ∧ Num.ofText (String.ofList cs)=.fin (n/10^d) := by
  rcases Nat.eq_zero_or_pos d with rfl|hd
  · have hne : (toString n).toList ≠ [] := by
      rw [natText_toList]
      exact Nat.toDigits_ne_nil
    have hdigits : ∀ c ∈ (toString n).toList, c.isDigit=true := fun c => isDigit_of_mem_natText
    refine ⟨(toString n).toList,?_,fun c hc => .inl (hdigits c hc),?_,?_⟩
    · simpa using head_natText n []
    · rw [if_pos rfl,pow_zero,Nat.div_one,String.append_empty,String.ofList_toList]
    · rw [Num.ofText_digits hne hdigits,natText_toList,Nat.ofDigitChars_ten_toDigits,pow_zero,div_one]
  · obtain ⟨xs,ys,hne,hx,hy,hlen,hvalue,htext⟩ := fixed_point n hd
    obtain ⟨c,hc,hdig⟩ := exists_head hne hx
    refine ⟨xs++ '.'::ys,⟨c,by rw [List.head?_append,hc]; rfl,hdig⟩,isPlain_point hx hy,htext,?_⟩
    rw [Num.ofText_decimal hne hx hy,hvalue,hlen]

/-- A number as it is printed to a fixed number of decimals. -/
def rounded (x : ℚ) (d : ℕ) : ℚ :=
  let n : ℚ := ⌊|x| * 10^d+1/2⌋.toNat/10^d
  if x<0 then -n else n

theorem Num.ofText_rounded (x : ℚ) (d : ℕ) : Num.ofText (Js.toFixed x d)=.fin (rounded x d) := by
  obtain ⟨cs,hhead,hplain,htext,hread⟩ := fixed_digits ⌊|x| * 10^d+1/2⌋.toNat d
  unfold Js.toFixed rounded
  dsimp only
  rw [String.append_assoc,htext]
  by_cases hneg : x<0
  · have hminus : "-" ++ String.ofList cs=String.ofList ('-'::cs) := by
      rw [show "-"=String.ofList ['-'] from rfl,← String.ofList_append]
      rfl
    rw [if_pos hneg,if_pos hneg,hminus,Num.ofText_neg hhead hplain hread]
  · rw [if_neg hneg,if_neg hneg,String.empty_append,hread]

/-- Halves of the last decimal are lost at most. -/
theorem abs_rounded_sub_le (x : ℚ) (d : ℕ) : |rounded x d-x| ≤ 1/(2*10^d) := by
  have hten := ten_pow_pos d
  have hfloor : (⌊|x| * 10^d+1/2⌋.toNat : ℚ)=⌊|x| * 10^d+1/2⌋ := by
    exact_mod_cast Int.toNat_of_nonneg (Int.floor_nonneg.mpr (by positivity))
  have hlo := Int.lt_floor_add_one (|x| * 10^d+1/2)
  have hhi := Int.floor_le (|x| * 10^d+1/2)
  have hdiff : (⌊|x| * 10^d+1/2⌋ : ℚ)/10^d-|x|=(⌊|x| * 10^d+1/2⌋-|x| * 10^d)/10^d := by
    rw [sub_div,mul_div_cancel_right₀ _ hten.ne']
  have hnear : abs ((⌊|x| * 10^d+1/2⌋ : ℚ)/10^d-|x|) ≤ 1/(2*10^d) := by
    rw [hdiff,abs_div,abs_of_pos hten,← div_div]
    apply div_le_div_of_nonneg_right _ hten.le
    rw [abs_le]
    constructor
    · linarith
    · linarith
  unfold rounded
  dsimp only
  rw [hfloor]
  by_cases hneg : x<0
  · rw [abs_of_neg hneg] at hnear ⊢
    rw [if_pos hneg,← abs_neg,neg_sub,sub_neg_eq_add,add_comm]
    rwa [sub_neg_eq_add] at hnear
  · rw [if_neg hneg]
    rw [abs_of_nonneg (not_lt.mp hneg)] at hnear ⊢
    exact hnear

theorem rounded_eq {x : ℚ} {d : ℕ} {n : ℤ} (h : x*10^d=n) : rounded x d=x := by
  have hten := ten_pow_pos d
  have hx : x=n/10^d := by
    rw [eq_div_iff hten.ne',h]
  have habs : |x|=(n.natAbs : ℚ)/10^d := by
    rw [hx,abs_div,abs_of_pos hten,Nat.cast_natAbs,Int.cast_abs]
  have hfloor : ⌊|x| * 10^d+1/2⌋.toNat=n.natAbs := by
    rw [habs,div_mul_cancel₀ _ hten.ne',Int.floor_natCast_add,show ⌊(1/2 : ℚ)⌋=0 by norm_num,add_zero,
      Int.toNat_natCast]
  unfold rounded
  dsimp only
  rw [hfloor,← habs]
  by_cases hneg : x<0
  · rw [if_pos hneg,abs_of_neg hneg,neg_neg]
  · rw [if_neg hneg,abs_of_nonneg (not_lt.mp hneg)]

/-- What is printed to a fixed number of decimals is read back. -/
theorem Num.ofText_toFixed {x : ℚ} {d : ℕ} {n : ℤ} (h : x*10^d=n) : Num.ofText (Js.toFixed x d)=.fin x := by
  rw [Num.ofText_rounded,rounded_eq h]

end Js
