import Mathlib.Tactic.IntervalCases
import TradeGate.Number.Decimal

/-! Numbers in JSON: which texts are numbers, and that the text of a number is one and is read as it. -/
namespace Js
open Double

/-- What may stand behind a minus sign: no leading zeros, and digits after a point. -/
def unsigned (cs : List Char) : Option ℚ :=
  match digits cs 0 0 with
  | (i,n,rest) =>
    if n=0 ∨ 1<n ∧ cs.head?=some '0' then none
    else match fraction rest with
      | (f,m,rest') =>
        if rest.head?=some '.' ∧ m=0 then none
        else (exponent rest').map fun e => (i+f/10^m)*(10 : ℚ)^e

/-- A number as JSON has it. -/
def numeral : List Char → Option ℚ
  | '-'::cs => (unsigned cs).map fun x => -x
  | cs => unsigned cs

example : numeral "-1.5e+3".toList=some (-1500) := by decide +kernel

example : numeral "01".toList=none := by decide +kernel

/-- Digits after a point, if there are any. -/
def pointed (ys : List Char) : List Char := if ys=[] then [] else '.'::ys

section
variable {xs ys es : List Char} {e : ℤ}

theorem unsigned_scientific (hne : xs ≠ []) (hx : ∀ c ∈ xs, c.isDigit=true)
    (hlead : xs.head?=some '0' → xs.length=1) (hy : ∀ c ∈ ys, c.isDigit=true)
    (he : exponent es=some e) (hes : ∀ c ∈ es.head?, c.isDigit=false ∧ c ≠ '.') :
    unsigned (xs ++ pointed ys ++ es)=some (Nat.ofDigitChars 10 (xs ++ ys) 0/10^ys.length*(10 : ℚ)^e) := by
  have hpos : 0<xs.length := List.length_pos_iff.mpr hne
  have hhead : (xs ++ pointed ys ++ es).head?=xs.head? := by
    obtain ⟨c,cs,rfl⟩ := List.exists_cons_of_ne_nil hne
    rfl
  have hzero : ¬(0+xs.length=0 ∨ 1<0+xs.length ∧ xs.head?=some '0') := by
    rintro (h | ⟨h,h₀⟩)
    · omega
    · rw [hlead h₀] at h
      omega
  by_cases hys : ys=[]
  · subst hys
    have hfrac : fraction es=(0,0,es) := by
      unfold fraction
      split
      next => exact absurd rfl (hes '.' rfl).2
      next => rfl
    have hpoint : es.head? ≠ some '.' := fun h => (hes '.' h).2 rfl
    rw [pointed,if_pos rfl,List.append_nil] at hhead ⊢
    unfold unsigned
    rw [digits_append hx (fun c hc => (hes c hc).1),hhead]
    dsimp only
    rw [if_neg hzero,hfrac]
    simp [hpoint,he]
  · have hlen : 0<ys.length := List.length_pos_iff.mpr hys
    have hsum : Nat.ofDigitChars 10 (xs ++ ys) 0 =
        10^ys.length*Nat.ofDigitChars 10 xs 0+Nat.ofDigitChars 10 ys 0 := by
      rw [Nat.ofDigitChars_append,Nat.ofDigitChars_eq_ofDigitChars_zero]
    rw [pointed,if_neg hys,List.append_assoc,List.cons_append] at hhead ⊢
    unfold unsigned
    rw [digits_append hx (by simp),hhead]
    dsimp only
    rw [if_neg hzero,fraction,digits_append hy (fun c hc => (hes c hc).1)]
    dsimp only
    rw [if_neg (by omega),he,hsum,Nat.zero_add,Option.map_some]
    congr 2
    push_cast
    field_simp

theorem exponent_natText (n : ℕ) : exponent ('e':: '+'::(toString n).toList)=some (n : ℤ) ∧
    exponent ('e':: '-'::(toString n).toList)=some (-n : ℤ) := by
  have hd : ∀ c ∈ (toString n).toList, c.isDigit=true := fun c => isDigit_of_mem_natText
  have hv : Nat.ofDigitChars 10 (toString n).toList 0=n := by
    rw [natText_toList,Nat.ofDigitChars_ten_toDigits]
  obtain ⟨k,hk⟩ : ∃ k, 0+(toString n).toList.length=k+1 := by
    refine Nat.exists_eq_add_one.mpr ?_
    rw [natText_toList,Nat.zero_add]
    exact List.length_pos_iff.mpr Nat.toDigits_ne_nil
  constructor
  · simp only [exponent,sign,digits_of_isDigit hd,hv,hk]
    simp
  · simp only [exponent,sign,digits_of_isDigit hd,hv,hk]
    simp

theorem head_toDigits {m : ℕ} (hm : 0 < m) : (Nat.toDigits 10 m).head? ≠ some '0' := by
  induction m using Nat.strong_induction_on with
  | h m ih =>
    rw [Nat.toDigits_eq_if (by decide)]
    split
    next h => interval_cases m <;> decide
    next h =>
      rw [List.head?_append_of_ne_nil _ Nat.toDigits_ne_nil]
      exact ih (m/10) (by omega) (by omega)

theorem scale_eq {a : ℕ} {n : ℤ} (v : ℚ) (h : e-a=n) : v/10^a*(10 : ℚ)^e=v*(10 : ℚ)^n := by
  rw [← h,zpow_sub₀ (by norm_num),zpow_natCast]
  ring

/-- The text of the digits with the point `n` places behind their start. -/
def placed (ds : List Char) (n : ℤ) : String :=
  if ds.length ≤ n ∧ n ≤ 21 then String.ofList ds ++ zeros (n-ds.length).toNat
  else if 0<n ∧ n ≤ 21 then String.ofList (ds.take n.toNat) ++ "." ++ String.ofList (ds.drop n.toNat)
  else if -6<n ∧ n ≤ 0 then "0." ++ zeros (-n).toNat ++ String.ofList ds
  else String.ofList (ds.take 1) ++ (if ds.length=1 then "" else "." ++ String.ofList (ds.drop 1)) ++
    "e" ++ (if 0<n then "+" else "-") ++ toString (n-1).natAbs

theorem placed_shape {ds : List Char} (hne : ds ≠ []) (hds : ∀ c ∈ ds, c.isDigit=true)
    (hlead : ds.head? ≠ some '0') (n : ℤ) :
    ∃ xs ys es e, (placed ds n).toList=xs ++ pointed ys ++ es ∧
      xs ≠ [] ∧ (∀ c ∈ xs, c.isDigit=true) ∧ (xs.head?=some '0' → xs.length=1) ∧
      (∀ c ∈ ys, c.isDigit=true) ∧ exponent es=some e ∧ (∀ c ∈ es.head?, c.isDigit=false ∧ c ≠ '.') ∧
      (Nat.ofDigitChars 10 (xs ++ ys) 0 : ℚ)/10^ys.length*(10 : ℚ)^e =
        Nat.ofDigitChars 10 ds 0*(10 : ℚ)^(n-ds.length) := by
  have hpos : 0<ds.length := List.length_pos_iff.mpr hne
  have hmem : ∀ {cs : List Char} {k : ℕ}, (∀ c ∈ cs, c.isDigit=true) →
      ∀ c ∈ List.replicate k '0' ++ cs, c.isDigit=true := by
    intro cs k hcs c hc
    rcases List.mem_append.mp hc with hc | hc
    · exact isDigit_of_mem_zeros hc
    · exact hcs c hc
  unfold placed
  split
  next h₁ =>
    refine ⟨ds ++ List.replicate (n-ds.length).toNat '0',[],[],0,?_,by simp [hne],?_,?_,by simp,rfl,by simp,?_⟩
    · simp [zeros,pointed]
    · intro c hc
      rcases List.mem_append.mp hc with hc | hc
      · exact hds c hc
      · exact isDigit_of_mem_zeros hc
    · intro h
      rw [List.head?_append_of_ne_nil _ hne] at h
      exact absurd h hlead
    · rw [List.append_nil,Nat.ofDigitChars_append,Nat.ofDigitChars_replicate_zero]
      have ht : ((n-ds.length).toNat : ℤ)=n-ds.length := Int.toNat_of_nonneg (by omega)
      rw [← ht,zpow_natCast]
      push_cast
      simp [mul_comm]
  next h₁ =>
  split
  next h₂ =>
    obtain ⟨k,hk⟩ := Int.eq_ofNat_of_zero_le h₂.1.le
    subst hk
    rw [Int.toNat_natCast]
    have hdrop : ds.drop k ≠ [] := by
      rw [Ne,List.drop_eq_nil_iff]
      omega
    have htake : ds.take k ≠ [] := by
      rw [Ne,List.take_eq_nil_iff]
      exact not_or.mpr ⟨by omega,hne⟩
    refine ⟨ds.take k,ds.drop k,[],0,?_,htake,fun c hc => hds c (List.mem_of_mem_take hc),?_,
      fun c hc => hds c (List.mem_of_mem_drop hc),rfl,by simp,?_⟩
    · simp [pointed,hdrop]
    · intro h
      rw [List.head?_take,if_neg (by omega)] at h
      exact absurd h hlead
    · rw [List.take_append_drop,scale_eq]
      rw [List.length_drop]
      omega
  next h₂ =>
  split
  next h₃ =>
    refine ⟨['0'],List.replicate (-n).toNat '0' ++ ds,[],0,?_,by simp,by simp,by simp,hmem hds,rfl,by simp,?_⟩
    · simp [pointed,hne,zeros]
    · have hvalue : Nat.ofDigitChars 10 (['0'] ++ (List.replicate (-n).toNat '0' ++ ds)) 0 =
          Nat.ofDigitChars 10 ds 0 := by
        rw [Nat.ofDigitChars_append,Nat.ofDigitChars_append,Nat.ofDigitChars_replicate_zero]
        rfl
      rw [hvalue,scale_eq]
      rw [List.length_append,List.length_replicate]
      omega
  next h₃ =>
    obtain ⟨c,cs,rfl⟩ := List.exists_cons_of_ne_nil hne
    have hexp := exponent_natText (n-1).natAbs
    refine ⟨[c],cs,'e'::(if 0<n then '+' else '-')::(toString (n-1).natAbs).toList,n-1,?_,by simp,?_,by simp,?_,?_,
      by simp,?_⟩
    · have hlen : (c::cs).length=1 ↔ cs=[] := by simp
      by_cases hcs : cs=[] <;> by_cases hn : 0<n <;> simp [pointed,hcs,hn]
    · intro x hx
      rw [List.mem_singleton.mp hx]
      exact hds c List.mem_cons_self
    · exact fun x hx => hds x (List.mem_cons_of_mem c hx)
    · split
      next hn =>
        rw [hexp.1]
        exact congrArg some (by omega)
      next hn =>
        rw [hexp.2]
        exact congrArg some (by omega)
    · rw [List.singleton_append,scale_eq]
      rw [List.length_cons]
      omega

/-- How the digits of a number that is not zero stand in its text. -/
theorem numberText_eq {x : ℚ} {j : ℕ} (hj : x.den ∣ 10^j) (hx : x ≠ 0) : ∃ ds n,
    numberText x=(if x<0 then "-" else "") ++ placed ds n ∧ ds ≠ [] ∧ (∀ c ∈ ds, c.isDigit=true) ∧
      ds.head? ≠ some '0' ∧ (Nat.ofDigitChars 10 ds 0 : ℚ)*(10 : ℚ)^(n-ds.length)=|x| := by
  have habs : 0 < |x| := abs_pos.mpr hx
  have hm : |x| * 10^decimalsOf x=(⌊|x| * 10^decimalsOf x⌋.toNat : ℕ) := by
    have h := natCast_of_den_dvd (abs_nonneg x) (den_abs x ▸ den_dvd_decimalsOf hj)
    rwa [abs_abs] at h
  have htext : numberText x=(if x<0 then "-" else "") ++ placed
      (((toString ⌊|x| * 10^decimalsOf x⌋.toNat).toList.reverse.dropWhile fun c => c = '0').reverse)
      ((toString ⌊|x| * 10^decimalsOf x⌋.toNat).length-decimalsOf x) := by
    rw [numberText,if_neg hx]
    rfl
  refine ⟨_,_,htext,?_⟩
  generalize ⌊|x| * 10^decimalsOf x⌋.toNat=m at hm ⊢
  generalize decimalsOf x=d at hm ⊢
  obtain ⟨hk,hv,hds⟩ := ofDigitChars_shortened m
  have happ := append_zeros (toString m).toList
  rw [String.length]
  have hmpos : 0 < m := by
    by_contra h
    rw [Nat.eq_zero_of_not_pos h,Nat.cast_zero] at hm
    exact (mul_pos habs (ten_pow_pos d)).ne' hm
  have hhead : (toString m).toList.head? ≠ some '0' := natText_toList m ▸ head_toDigits hmpos
  generalize ((toString m).toList.reverse.dropWhile fun c => decide (c = '0')).reverse=ds at hk hv hds happ ⊢
  generalize (toString m).toList=ts at hk hv happ hhead ⊢
  have hval : |x| * 10^d=10^(ts.length-ds.length)*(Nat.ofDigitChars 10 ds 0 : ℚ) := by
    rw [hm]
    exact_mod_cast hv
  have hne : ds ≠ [] := by
    rintro rfl
    rw [Nat.ofDigitChars_nil,Nat.cast_zero,mul_zero] at hval
    exact (mul_pos habs (ten_pow_pos d)).ne' hval
  refine ⟨hne,hds,?_,?_⟩
  · rwa [← happ,List.head?_append_of_ne_nil _ hne] at hhead
  · refine mul_right_cancel₀ (ten_pow_pos d).ne' ?_
    have hpow : (10 : ℚ)^(ts.length-ds.length)=(10 : ℚ)^((ts.length : ℤ)-d-ds.length)*10^d := by
      rw [← zpow_natCast,← zpow_natCast,← zpow_add₀ (by norm_num)]
      congr 1
      omega
    rw [hval,hpow]
    ring

theorem numeral_numberText {x : ℚ} {j : ℕ} (hj : x.den ∣ 10^j) : numeral (numberText x).toList=some x := by
  by_cases hx : x=0
  · subst hx
    decide +kernel
  obtain ⟨ds,n,htext,hne,hds,hlead,hval⟩ := numberText_eq hj hx
  obtain ⟨xs,ys,es,e,hplaced,hxs,hsigns,hlead',hy,he,hes,hvalue⟩ := placed_shape hne hds hlead n
  have hread := unsigned_scientific hxs hsigns hlead' hy he hes
  rw [hvalue,hval,← hplaced] at hread
  rw [htext,String.toList_append]
  split
  next hneg =>
    have hminus : numeral ("-".toList ++ (placed ds n).toList)=(unsigned (placed ds n).toList).map fun x => -x :=
      rfl
    rw [hminus,hread,abs_of_neg hneg,Option.map_some,neg_neg]
  next hneg =>
    have hplain : numeral (placed ds n).toList=unsigned (placed ds n).toList := by
      unfold numeral
      split
      next cs heq =>
        rw [hplaced] at heq
        obtain ⟨c,cs,rfl⟩ := List.exists_cons_of_ne_nil hxs
        cases heq
        exact absurd (hsigns '-' List.mem_cons_self) (by decide)
      next => rfl
    rw [String.toList_empty,List.nil_append,hplain,hread,abs_of_nonneg (not_lt.mp hneg)]

end

theorem halfEven_neg (x : ℚ) : halfEven (-x) = -halfEven x := by
  have hle := Int.floor_le x
  have hlt := Int.lt_floor_add_one x
  unfold halfEven
  dsimp only
  generalize ⌊x⌋=f at hle hlt ⊢
  by_cases hx : x=f
  · have hf : ⌊-x⌋ = -f := by
      rw [Int.floor_eq_iff,hx]
      push_cast
      constructor <;> linarith
    rw [hf,hx]
    push_cast
    rw [if_pos (by norm_num),if_pos (by norm_num)]
  · have hgt : (f : ℚ)<x := lt_of_le_of_ne hle (Ne.symm hx)
    have hf : ⌊-x⌋ = -f-1 := by
      rw [Int.floor_eq_iff]
      push_cast
      constructor <;> linarith
    rw [hf]
    push_cast
    -- the fraction of the opposite is what is missing to one
    rcases lt_trichotomy (x-f) (1/2) with h | h | h
    · rw [if_neg (by linarith),if_pos (by linarith),if_pos h]
      ring
    · have hback : -x-(-f-1)=1/2 := by linarith
      rw [hback,h]
      split_ifs <;> first | omega | linarith
    · rw [if_pos (by linarith),if_neg (by linarith),if_pos h]
      ring

theorem round_neg {x y : ℚ} (h : Double.round x=.fin y) : Double.round (-x)=.fin (-y) := by
  unfold Double.round at h ⊢
  have hplace : place (-x)=place x := by rw [place,place,abs_neg]
  rw [hplace,neg_div,halfEven_neg]
  dsimp only at h ⊢
  push_cast
  rw [neg_mul,abs_neg]
  split at h
  next => cases h
  next hsmall =>
    rw [if_neg hsmall]
    exact congrArg (fun z => Js.Num.fin (-z)) (Js.Num.fin.inj h)

/-- The shortest decimal of a double is rounded to the double. -/
theorem round_shortest {x : ℚ} (hx : Double.round x=.fin x) : Double.round (shortest x)=.fin x := by
  have habs : Double.round |x|=.fin |x| := by
    rcases abs_choice x with h | h <;> rw [h]
    · exact hx
    · exact round_neg hx
  have hfound : Double.round ((((List.range' 1 17).map (decimal |x|)).find? fun d =>
      Double.round d=.fin |x|).getD |x|)=.fin |x| := by
    cases hf : ((List.range' 1 17).map (decimal |x|)).find? fun d => Double.round d=.fin |x| with
    | some d => simpa using List.find?_some hf
    | none => exact habs
  unfold shortest
  dsimp only
  split
  next hneg =>
    rw [neg_one_mul,round_neg hfound,abs_of_neg hneg,neg_neg]
  next hneg =>
    rw [one_mul,hfound,abs_of_nonneg (not_lt.mp hneg)]

/-- The text of a double is read as the double. -/
theorem numeral_text {x : ℚ} (hx : Double.round x=.fin x) :
    (numeral (Double.text (.fin x)).toList).map Double.round=some (.fin x) := by
  by_cases h : x=0
  · subst h
    decide +kernel
  · obtain ⟨j,hj⟩ := exists_den_shortest hx
    rw [Double.text,if_neg h,numeral_numberText hj,Option.map_some,round_shortest hx]

end Js

namespace Rust
open Js

theorem lt_of_parse {limit n : ℕ} {cs : List Char} (h : parseUnsigned limit cs=some n) : n<limit := by
  unfold parseUnsigned at h
  split at h <;> exact of_decide_eq_true (Option.filter_eq_some_iff.mp h).2

/-- Without a sign, and without a zero in front of other digits. -/
def Shortest (cs : List Char) : Prop := cs.head? ≠ some '+' ∧ (cs.head?=some '0' → cs.length=1)

instance (cs : List Char) : Decidable (Shortest cs) := inferInstanceAs (Decidable (_ ∧ (_ → _)))

theorem isDigit_ne_plus {c : Char} (h : c.isDigit=true) : c ≠ '+' := by
  rintro rfl
  cases h

/-- A number of a digit. -/
theorem digitChar_of_isDigit {c : Char} (h : c.isDigit=true) : ∃ d<10, c=Nat.digitChar d := by
  obtain ⟨hlow,hhigh⟩ := toNat_of_isDigit h
  refine ⟨c.toNat-48,by omega,?_⟩
  have hc : Char.ofNat c.toNat=c := Char.ofNat_toNat c
  generalize c.toNat=n at hlow hhigh hc
  rw [← hc]
  interval_cases n <;> rfl

/-- Digits that do not begin with a zero are what their value prints as. -/
theorem toDigits_ofDigitChars {cs : List Char} (hne : cs ≠ []) (hd : ∀ c ∈ cs, c.isDigit=true)
    (hz : cs.head?=some '0' → cs.length=1) : Nat.toDigits 10 (Nat.ofDigitChars 10 cs 0)=cs := by
  induction cs using List.reverseRecOn with
  | nil => exact absurd rfl hne
  | append_singleton cs c ih =>
    obtain ⟨d,hd10,rfl⟩ := digitChar_of_isDigit (hd c (by simp))
    rw [Nat.ofDigitChars_append,Nat.ofDigitChars_cons_digitChar_of_lt_ten hd10,Nat.ofDigitChars_nil]
    by_cases hcs : cs=[]
    · subst hcs
      rw [Nat.ofDigitChars_nil,Nat.mul_zero,Nat.zero_add,Nat.toDigits_of_lt_base hd10]
      rfl
    · have hhead : cs.head? ≠ some '0' := by
        intro h
        have hlen := hz (by rw [List.head?_append_of_ne_nil _ hcs,h])
        have hpos := List.length_pos_of_ne_nil hcs
        rw [List.length_append,List.length_singleton] at hlen
        omega
      have htext := ih hcs (fun c hc => hd c (List.mem_append_left _ hc)) fun h => absurd h hhead
      have hpos : 0<Nat.ofDigitChars 10 cs 0 := by
        rw [Nat.pos_iff_ne_zero]
        intro h
        rw [h,Nat.toDigits_zero] at htext
        rw [← htext] at hhead
        exact hhead rfl
      rw [← Nat.toDigits_append_toDigits (by decide) hpos hd10,htext,Nat.toDigits_of_lt_base hd10]

/-- A text that is read as a number is its text if and only if it is the shortest one. -/
theorem natText_eq_iff {limit n : ℕ} {cs : List Char} (h : parseUnsigned limit cs=some n) :
    (toString n).toList=cs ↔ Shortest cs := by
  constructor
  · rintro rfl
    constructor
    · intro hhead
      exact isDigit_ne_plus (isDigit_of_mem_natText (List.mem_of_mem_head? hhead)) rfl
    · intro hhead
      rw [natText_toList] at hhead ⊢
      by_cases hn : n=0
      · rw [hn]
        rfl
      · exact absurd hhead (head_toDigits (Nat.pos_of_ne_zero hn))
  · rintro ⟨hplus,hz⟩
    have hd : ∀ c ∈ cs, c.isDigit=true := by
      unfold parseUnsigned at h
      split at h
      next => exact absurd rfl hplus
      next => exact (isDigit_of_decimal (Option.filter_eq_some_iff.mp h).1).2
    rw [parseUnsigned_of_isDigit hd] at h
    have hdec := (Option.filter_eq_some_iff.mp h).1
    have hne := (isDigit_of_decimal hdec).1
    rw [decimal_of_isDigit hne hd] at hdec
    rw [natText_toList,← Option.some.inj hdec]
    exact toDigits_ofDigitChars hne hd hz

end Rust
