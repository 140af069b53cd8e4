import Mathlib.Data.Nat.Factorization.Basic
import Mathlib.Data.Nat.Log
import Mathlib.Data.Nat.Prime.Basic
import TradeGate.Number.Double
import TradeGate.Number.Safe

/-! Numbers that print as an integer: what `str::parse` makes of the text of a double. -/
namespace Rust
open Js

theorem decimal_of_isDigit {cs : List Char} (hne : cs ≠ []) (h : ∀ c ∈ cs, c.isDigit=true) :
    decimal cs=some (Nat.ofDigitChars 10 cs 0) := if_pos ⟨hne,List.all_eq_true.mpr h⟩

theorem isDigit_of_decimal {cs : List Char} {n : ℕ} (h : decimal cs=some n) :
    cs ≠ [] ∧ ∀ c ∈ cs, c.isDigit=true := by
  unfold decimal at h
  split_ifs at h with hc
  exact ⟨hc.1,List.all_eq_true.mp hc.2⟩

/-- What can be read is digits, but for a plus sign. -/
theorem plain_of_parse {limit : ℕ} {cs : List Char} (h : (parseUnsigned limit cs).isSome) :
    ∀ c ∈ cs, c = '+' ∨ c.isDigit=true := by
  obtain ⟨n,hn⟩ := Option.isSome_iff_exists.mp h
  unfold parseUnsigned at hn
  split at hn
  · obtain ⟨hn,-⟩ := Option.filter_eq_some_iff.mp hn
    intro c hc
    obtain rfl|hc := List.mem_cons.mp hc
    · exact .inl rfl
    · exact .inr ((isDigit_of_decimal hn).2 c hc)
  · obtain ⟨hn,-⟩ := Option.filter_eq_some_iff.mp hn
    exact fun c hc => .inr ((isDigit_of_decimal hn).2 c hc)

theorem parseUnsigned_of_isDigit {limit : ℕ} {cs : List Char} (h : ∀ c ∈ cs, c.isDigit=true) :
    parseUnsigned limit cs=(decimal cs).filter fun n => n<limit := by
  cases cs with
  | nil => rfl
  | cons c cs =>
    have hc : c ≠ '+' := by
      rintro rfl
      cases h '+' List.mem_cons_self
    simp [parseUnsigned,hc]

theorem parseUnsigned_natText (limit n : ℕ) :
    parseUnsigned limit (toString n).toList=if n<limit then some n else none := by
  have hd : ∀ c ∈ (toString n).toList, c.isDigit=true := fun c hc => isDigit_of_mem_natText hc
  rw [parseUnsigned_of_isDigit hd]
  rw [natText_toList] at hd ⊢
  rw [decimal_of_isDigit Nat.toDigits_ne_nil hd,Nat.ofDigitChars_ten_toDigits]
  by_cases hn : n<limit
  · simp [hn]
  · rw [if_neg hn]
    simpa using not_lt.mp hn

end Rust

namespace Double
open Js

/-- A power of ten that a number divides need not be large. -/
theorem dvd_ten_pow_log2 {n j : ℕ} (hn : 0<n) (h : n ∣ 10^j) : n ∣ 10^Nat.log2 n := by
  refine (Nat.dvd_iff_prime_pow_dvd_dvd _ _).mpr fun p k hp hk => ?_
  cases k with
  | zero => exact one_dvd _
  | succ k =>
    have hten : p ∣ 10 := hp.dvd_of_dvd_pow ((dvd_of_mul_left_dvd (pow_succ p k ▸ hk)).trans h)
    have hle : 2^(k+1) ≤ n :=
      (Nat.pow_le_pow_left hp.two_le _).trans (Nat.le_of_dvd hn hk)
    have hlog : k+1 ≤ Nat.log2 n := (Nat.le_log2 hn.ne').mpr hle
    exact (pow_dvd_pow_of_dvd hten _).trans (pow_dvd_pow _ hlog)

/-- The decimals of a decimal number. -/
theorem den_dvd_decimalsOf {x : ℚ} {j : ℕ} (h : x.den ∣ 10^j) : x.den ∣ 10^decimalsOf x := by
  have hmem : Nat.log2 x.den ∈ List.range (Nat.log2 x.den+2) := by
    rw [List.mem_range]
    omega
  unfold decimalsOf
  cases hf : (List.range (Nat.log2 x.den+2)).find? fun d => x.den ∣ 10^d with
  | none =>
    have := List.find?_eq_none.mp hf _ hmem
    exact absurd (dvd_ten_pow_log2 x.den_pos h) (by simpa using this)
  | some d => simpa using List.find?_some hf

theorem intCast_of_den_dvd {x : ℚ} {d : ℕ} (h : x.den ∣ 10^d) : ∃ n : ℤ, x*10^d=n := by
  obtain ⟨c,hc⟩ := h
  refine ⟨x.num*c,?_⟩
  have hpow : (10 : ℚ)^d=x.den*c := by exact_mod_cast hc
  rw [hpow,← mul_assoc,Rat.mul_den_eq_num]
  push_cast
  rfl

theorem natCast_of_den_dvd {x : ℚ} {d : ℕ} (hx : 0 ≤ x) (h : x.den ∣ 10^d) :
    x*10^d=(⌊|x| * 10^d⌋.toNat : ℕ) := by
  obtain ⟨n,hn⟩ := intCast_of_den_dvd h
  have hpos : (0 : ℚ) ≤ n := by
    rw [← hn]
    positivity
  rw [abs_of_nonneg hx,hn,Int.floor_intCast]
  exact_mod_cast (Int.toNat_of_nonneg (by exact_mod_cast hpos)).symm

/-- A number that ends in zeros is a multiple of their power of ten. -/
theorem dvd_of_zeros {m d : ℕ}
    (h : (((toString m).toList.reverse.dropWhile fun c => c = '0').reverse.length : ℤ) ≤
      (toString m).length-d) : 10^d ∣ m := by
  have hvalue := Nat.ofDigitChars_ten_toDigits (n := m)
  rw [← natText_toList,← append_zeros (toString m).toList,Nat.ofDigitChars_append,
    Nat.ofDigitChars_replicate_zero] at hvalue
  rw [← hvalue]
  refine (pow_dvd_pow 10 ?_).mul_right _
  rw [String.length] at h
  omega

/-- A text without anything but digits, for a plus sign, stands for a natural number. -/
theorem exists_nat_of_plain {x : ℚ} (hx : x ≠ 0) {j : ℕ} (hj : x.den ∣ 10^j)
    (hd : ∀ c ∈ (numberText x).toList, c = '+' ∨ c.isDigit=true) : ∃ n : ℕ, x=n ∧ n<10^21 := by
  have hnot : ∀ {c : Char}, c ≠ '+' → c.isDigit=false → c ∉ (numberText x).toList := by
    intro c hp hn hc
    obtain h|h := hd c hc
    · exact hp h
    · rw [hn] at h
      cases h
  have hpos : 0<x := by
    by_contra hneg
    refine hnot (c := '-') (by decide) (by decide) ?_
    unfold numberText
    rw [if_neg hx]
    simp [lt_of_le_of_ne (not_lt.mp hneg) hx]
  have hm := natCast_of_den_dvd hpos.le (den_dvd_decimalsOf hj)
  have hdot := hnot (c := '.') (by decide) (by decide)
  have he := hnot (c := 'e') (by decide) (by decide)
  revert hdot he
  unfold numberText
  rw [if_neg hx,if_neg hpos.not_gt]
  dsimp only
  generalize ⌊|x| * 10^decimalsOf x⌋.toNat=m at hm ⊢
  generalize decimalsOf x=d at hm ⊢
  split
  · rename_i h
    intro _ _
    obtain ⟨n,rfl⟩ := dvd_of_zeros h.1
    have hten : (0 : ℚ)<10^d := by positivity
    refine ⟨n,?_,?_⟩
    · refine mul_right_cancel₀ hten.ne' (hm.trans ?_)
      push_cast
      ring
    · have hlt : 10^d*n<10^(toString (10^d*n)).length := by
        rw [String.length,natText_toList]
        exact (Nat.length_toDigits_le_iff (by decide) Nat.length_toDigits_pos).mp le_rfl
      have hlen : 10^(toString (10^d*n)).length ≤ 10^d*10^21 := by
        rw [← pow_add]
        exact pow_le_pow_right₀ (by decide) (by omega)
      exact Nat.lt_of_mul_lt_mul_left (hlt.trans_le hlen)
  · split
    · intro hdot _
      simp at hdot
    · split
      · intro hdot _
        simp at hdot
      · intro _ he
        simp at he

theorem den_mul_zpow (a z : ℤ) (b : ℕ) : ((a : ℚ)*(b : ℚ)^z).den ∣ b^z.natAbs := by
  cases z with
  | ofNat n =>
    have hint : (a : ℚ)*(b : ℚ)^(n : ℤ)=((a*b^n : ℤ) : ℚ) := by
      rw [zpow_natCast]
      push_cast
      rfl
    rw [Int.ofNat_eq_natCast,hint,Rat.den_intCast]
    exact one_dvd _
  | negSucc n =>
    have hdiv : (a : ℚ)*(b : ℚ)^Int.negSucc n=(a : ℚ)/((b^(n+1) : ℤ) : ℚ) := by
      rw [zpow_negSucc,div_eq_mul_inv]
      push_cast
      rfl
    have := Rat.den_dvd a (b^(n+1) : ℤ)
    rw [hdiv,Int.natAbs_negSucc]
    exact_mod_cast this

theorem den_abs (x : ℚ) : |x|.den=x.den := by
  obtain h|h := abs_choice x <;> simp [h]

/-- The text of a double is a decimal. -/
theorem exists_den_shortest {x : ℚ} (hx : round x=.fin x) : ∃ j, (shortest x).den ∣ 10^j := by
  have hsign : ∀ y : ℚ, ((if x<0 then -1 else 1)*y).den=y.den := by
    intro y
    split_ifs <;> simp
  unfold shortest
  dsimp only
  rw [hsign]
  cases hf : ((List.range' 1 17).map (decimal |x|)).find? fun d => round d=.fin |x| with
  | some d =>
    obtain ⟨k,-,rfl⟩ := List.mem_map.mp (List.mem_of_find?_eq_some hf)
    exact ⟨_,den_mul_zpow _ _ 10⟩
  | none =>
    unfold round at hx
    dsimp only at hx
    split_ifs at hx
    have hden := den_mul_zpow (halfEven (x/(2 : ℚ)^place x)) (place x) 2
    rw [Nat.cast_ofNat,Js.Num.fin.inj hx] at hden
    refine ⟨(place x).natAbs,?_⟩
    rw [Option.getD_none,den_abs]
    exact hden.trans (pow_dvd_pow_of_dvd (by decide) _)

/-- A double whose shortest decimal is a small natural number is that number. -/
theorem eq_of_shortest {x : ℚ} {n : ℕ} (hx : x ≠ 0) (hn : n<2^53) (h : shortest x=n) : x=n := by
  unfold shortest at h
  dsimp only at h
  generalize hs : (((List.range' 1 17).map (decimal |x|)).find? fun d => round d=.fin |x|).getD |x| = y at h
  have habs : ∀ m : ℤ, |m|<2^53 → y=m → |x|=m := by
    rintro m hm rfl
    cases hf : ((List.range' 1 17).map (decimal |x|)).find? fun d => round d=.fin |x| with
    | some d =>
      rw [hf,Option.getD_some] at hs
      have hd : round d=.fin |x| := by simpa using List.find?_some hf
      rw [hs,round_intCast hm] at hd
      exact (Js.Num.fin.inj hd).symm
    | none => rwa [hf,Option.getD_none] at hs
  split_ifs at h with hneg
  · have hy : |x|=((-n : ℤ) : ℚ) := by
      refine habs (-n) ?_ ?_
      · rw [abs_neg,Nat.abs_cast]
        exact_mod_cast hn
      · push_cast
        linarith
    have habs₀ := abs_pos.mpr hx
    push_cast at hy
    linarith [n.cast_nonneg (α := ℚ)]
  · have hy : |x|=((n : ℤ) : ℚ) := by
      refine habs n ?_ ?_
      · rw [Nat.abs_cast]
        exact_mod_cast hn
      · push_cast
        linarith
    rw [abs_of_nonneg (not_lt.mp hneg)] at hy
    exact_mod_cast hy

/-- `str::parse` reads the text of a double if and only if it is a natural number below the limit. -/
theorem parse_text_iff {x : Js.Num} (hx : Exact x) {limit : ℕ} (hl : limit ≤ 2^53) :
    (Rust.parseUnsigned limit (text x).toList).isSome ↔ ∃ n : ℕ, n<limit ∧ x=.fin n := by
  constructor
  · intro h
    cases x with
    | nan =>
      obtain hc|hc := Rust.plain_of_parse h 'N' (by decide) <;> cases hc
    | inf negative =>
      cases negative with
      | true => obtain hc|hc := Rust.plain_of_parse h 'I' (by decide) <;> cases hc
      | false => obtain hc|hc := Rust.plain_of_parse h 'I' (by decide) <;> cases hc
    | fin q =>
      by_cases hq : q=0
      · subst hq
        refine ⟨0,?_,by rw [Nat.cast_zero]⟩
        by_contra hzero
        rw [Nat.le_zero.mp (not_lt.mp hzero)] at h
        cases h
      · rw [text,if_neg hq] at h
        obtain ⟨j,hj⟩ := exists_den_shortest (hx q rfl)
        have hne : shortest q ≠ 0 := by
          intro h₀
          refine hq ?_
          rw [eq_of_shortest (n := 0) hq (by decide) (by rw [h₀,Nat.cast_zero]),Nat.cast_zero]
        obtain ⟨n,hn,hlt⟩ := exists_nat_of_plain hne hj (Rust.plain_of_parse h)
        have hn₀ : (n : ℤ) ≠ 0 := by
          rintro h₀
          rw [hn] at hne
          exact hne (by exact_mod_cast h₀)
        have htext := numberText_intCast hn₀ (by simpa using hlt)
        rw [hn,← Int.cast_natCast,htext] at h
        have hparse := Rust.parseUnsigned_natText limit n
        rw [show (toString (n : ℤ))=toString n from rfl,hparse] at h
        split_ifs at h with hlim
        · exact ⟨n,hlim,by rw [eq_of_shortest hq (hlim.trans_le hl) hn]⟩
        · cases h
  · rintro ⟨n,hn,rfl⟩
    have habs : |(n : ℤ)|<2^53 := by
      rw [Nat.abs_cast]
      exact_mod_cast hn.trans_le hl
    have htext := text_round_intCast habs
    rw [round_intCast habs] at htext
    rw [← Int.cast_natCast,htext,show (toString (n : ℤ))=toString n from rfl,
      Rust.parseUnsigned_natText,if_pos hn]
    rfl

end Double
