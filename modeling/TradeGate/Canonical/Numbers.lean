import Mathlib.Data.List.TakeWhile
import TradeGate.Canonical.Text
import TradeGate.Js.Digits
/-! The texts of numbers: digits, points, signs and exponents, and never a delimiter. -/
namespace TradeGate.Canonical
open Js

/-- A character of a finite number. -/
def numberChar (c : Char) : Bool := c.isDigit || c = '.' || c = 'e' || c = '+' || c = '-'

theorem numeric_of_chars {s : String} (hne : s.toList ≠ []) (h : ∀ c ∈ s.toList, numberChar c=true) :
    Numeric s := by
  have hc : ∀ c, numberChar c=true → kindOf c=some .num ∧ delimits c=false := by
    intro c hc
    have hd : ∀ d ∈ ['n','t','f','"','[','\x7b',',',']','\x7d'], c ≠ d := by
      rintro d hd rfl
      revert hc
      simp only [List.mem_cons,List.not_mem_nil,or_false] at hd
      rcases hd with rfl|rfl|rfl|rfl|rfl|rfl|rfl|rfl|rfl <;> decide
    have hdel : delimits c=false := by
      simp [delimits,hd]
    refine ⟨?_,hdel⟩
    simp [kindOf,hd,hdel]
  obtain ⟨c,cs,hcs⟩ := List.exists_cons_of_ne_nil hne
  exact ⟨⟨c,cs,hcs,(hc c (h c (hcs ▸ List.mem_cons_self))).1⟩,fun x hx => (hc x (h x hx)).2⟩

theorem numberChar_of_mem_natText {n : ℕ} {c : Char} (h : c ∈ (toString n).toList) :
    numberChar c=true := by
  rw [numberChar,isDigit_of_mem_natText h]
  rfl

theorem natText_ne_nil (n : ℕ) : (toString n).toList ≠ [] := by
  rw [natText_toList]
  exact Nat.toDigits_ne_nil

theorem numeric_natText (n : ℕ) : Numeric (toString n) :=
  numeric_of_chars (natText_ne_nil n) fun _ => numberChar_of_mem_natText

theorem numeric_intText (i : ℤ) : Numeric (toString i) := by
  cases i with
  | ofNat n => exact numeric_natText n
  | negSucc n =>
    have htext : (toString (Int.negSucc n)).toList = '-'::(toString (n+1)).toList := by
      rw [show toString (Int.negSucc n)="-" ++ toString (n+1) from rfl,String.toList_append]
      rfl
    refine numeric_of_chars (by rw [htext]; exact List.cons_ne_nil _ _) fun c hc => ?_
    rw [htext] at hc
    rcases List.mem_cons.mp hc with rfl|hc
    · rfl
    · exact numberChar_of_mem_natText hc

/-- A number whose decimals are written out as zeros is zero. -/
theorem eq_zero_of_zeros {m : ℕ}
    (h : ((toString m).toList.reverse.dropWhile fun c => c = '0').reverse=[]) : m=0 := by
  have hall : ∀ c ∈ Nat.toDigits 10 m, c = '0' := by
    intro c hc
    have h' := (List.dropWhile_eq_nil_iff).mp (List.reverse_eq_nil_iff.mp h) c
      (List.mem_reverse.mpr (by rwa [natText_toList]))
    simpa using h'
  have hzero : ∀ cs : List Char, (∀ c ∈ cs, c = '0') → Nat.ofDigitChars 10 cs 0=0 := by
    intro cs hcs
    induction cs with
    | nil => rfl
    | cons c cs ih =>
      obtain ⟨rfl,hcs'⟩ := List.forall_mem_cons.mp hcs
      rw [Nat.ofDigitChars_cons]
      exact ih hcs'
  rw [← Nat.ofDigitChars_ten_toDigits (n := m),hzero _ hall]

/-- A number has as many decimals as make it an integer, or none are written. -/
theorem decimalsOf_eq_zero {x : ℚ} (hx : x ≠ 0) (h : ⌊|x| * 10^decimalsOf x⌋.toNat=0) :
    decimalsOf x=0 := by
  unfold decimalsOf at h ⊢
  cases hf : (List.range (Nat.log2 x.den+2)).find? fun d => x.den ∣ 10^d with
  | none => rfl
  | some d =>
    exfalso
    rw [hf,Option.getD_some] at h
    have hd : x.den ∣ 10^d := by simpa using List.find?_some hf
    obtain ⟨e,he⟩ := hd
    have habs : |x|=|(x.num : ℚ)|/x.den := by
      conv_lhs => rw [← Rat.num_div_den x]
      rw [abs_div,Nat.abs_cast]
    have hden : (x.den : ℚ) ≠ 0 := by exact_mod_cast x.den_nz
    have hint : |x| * 10^d=|(x.num : ℚ)| * e := by
      rw [show (10 : ℚ)^d=x.den*e by exact_mod_cast he,habs,← mul_assoc,div_mul_cancel₀ _ hden]
    have hpos : 1 ≤ |(x.num : ℚ)| * e := by
      have he' : e ≠ 0 := by
        rintro rfl
        have : 0<10^d := by positivity
        omega
      have hn : 1 ≤ |x.num| := Int.one_le_abs (Rat.num_ne_zero.mpr hx)
      have h₁ : (1 : ℚ) ≤ |(x.num : ℚ)| := by exact_mod_cast hn
      have h₂ : (1 : ℚ) ≤ e := by exact_mod_cast Nat.one_le_iff_ne_zero.mpr he'
      nlinarith
    have hfl : 1 ≤ ⌊|x| * 10^d⌋ := Int.le_floor.mpr (by rw [hint]; exact_mod_cast hpos)
    omega

/-- Digits, points, signs and the exponent's letter only. -/
def Plainly (s : String) : Prop := ∀ c ∈ s.toList, numberChar c=true

theorem Plainly.append {s t : String} (hs : Plainly s) (ht : Plainly t) : Plainly (s ++ t) := by
  intro c hc
  rw [String.toList_append] at hc
  exact (List.mem_append.mp hc).elim (hs c) (ht c)

theorem plainly_zeros (n : ℕ) : Plainly (zeros n) := by
  intro c hc
  rw [zeros,String.toList_ofList] at hc
  rw [List.eq_of_mem_replicate hc]
  rfl

theorem numeric_numberText (x : ℚ) : Numeric (numberText x) := by
  have hzero : Numeric "0" := numeric_of_chars (by decide) (List.all_eq_true.mp (by decide))
  unfold numberText
  by_cases hx : x=0
  · rw [if_pos hx]
    exact hzero
  rw [if_neg hx]
  extract_lets d m ds k n body
  have hds : ∀ cs ⊆ ds, Plainly (String.ofList cs) := by
    intro cs hcs c hc
    rw [String.toList_ofList] at hc
    refine numberChar_of_mem_natText (n := m) ?_
    exact List.mem_reverse.mp ((List.dropWhile_sublist _).subset (List.mem_reverse.mp (hcs hc)))
  have hpoint : Plainly "." := List.all_eq_true.mp (by decide)
  have hsign : ∀ b : Prop, [Decidable b] → Plainly (if b then "+" else "-") := by
    intro b _
    split <;> exact List.all_eq_true.mp (by decide)
  have hplain : Plainly body := by
    simp only [body]
    split
    · exact (hds _ (fun _ h => h)).append (plainly_zeros _)
    split
    · exact ((hds _ (List.take_subset _ _)).append hpoint).append (hds _ (List.drop_subset _ _))
    split
    · exact (Plainly.append (List.all_eq_true.mp (by decide)) (plainly_zeros _)).append (hds _ fun _ h => h)
    · refine ((((hds _ (List.take_subset _ _)).append ?_).append ?_).append (hsign _)).append
        fun _ => numberChar_of_mem_natText
      · split
        · exact List.all_eq_true.mp (by decide)
        · exact hpoint.append (hds _ (List.drop_subset _ _))
      · exact List.all_eq_true.mp (by decide)
  have hne : body.toList ≠ [] := by
    simp only [body]
    split_ifs with h₁
    · intro h
      -- without digits the number has no decimals and is written as one zero
      rw [String.toList_append,String.toList_ofList,List.append_eq_nil_iff] at h
      have hd : d=0 := decimalsOf_eq_zero hx (eq_zero_of_zeros h.1)
      have hlen : 0<(toString m).length := by
        rw [String.length]
        exact List.length_pos_iff.mpr (natText_ne_nil m)
      have hz := congrArg List.length h.2
      rw [zeros,String.toList_ofList,List.length_replicate,List.length_nil] at hz
      have hk : k=0 := by rw [show k=ds.length from rfl,h.1]; rfl
      have hn : n=(toString m).length-(d : ℤ) := rfl
      omega
    all_goals simp [String.toList_append]
  refine numeric_of_chars ?_ (Plainly.append ?_ hplain)
  · rw [String.toList_append]
    exact List.append_ne_nil_of_right_ne_nil _ hne
  · split <;> exact List.all_eq_true.mp (by decide)

theorem numeric_double (x : Js.Num) : Numeric (Double.text x) := by
  have hword : ∀ w : String, w.toList.all (fun c => !delimits c)=true →
      ∀ c ∈ w.toList, delimits c=false := by
    intro w hw c hc
    simpa using List.all_eq_true.mp hw c hc
  cases x with
  | nan => exact ⟨⟨ 'N',_,rfl,rfl⟩,hword "NaN" (by decide)⟩
  | inf b =>
    cases b
    · exact ⟨⟨ 'I',_,rfl,rfl⟩,hword "Infinity" (by decide)⟩
    · exact ⟨⟨ '-',_,rfl,rfl⟩,hword "-Infinity" (by decide)⟩
  | fin q =>
    by_cases hq : q=0
    · rw [Double.text,if_pos hq]
      exact numeric_of_chars (by decide) (List.all_eq_true.mp (by decide))
    · rw [Double.text,if_neg hq]
      exact numeric_numberText _

theorem numeric_number (x : Execd.Number) : Numeric x.text := by
  cases x with
  | posInt n => exact numeric_natText n
  | negInt i => exact numeric_intText i
  | float x => exact numeric_double (.fin x)

end TradeGate.Canonical
