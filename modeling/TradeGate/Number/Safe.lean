import Mathlib.Data.List.TakeWhile
import Mathlib.Tactic.FieldSimp
import Mathlib.Tactic.Linarith
import TradeGate.Js.Digits
import TradeGate.Number.Double

/-! Integers as doubles.  Below `2^53` they are read and printed unchanged. -/
namespace Double
open Js

theorem halfEven_intCast (n : ℤ) : halfEven n=n := by
  unfold halfEven
  simp

theorem abs_halfEven_sub_le (x : ℚ) : |(halfEven x : ℚ)-x| ≤ 1/2 := by
  have h₁ := Int.floor_le x
  have h₂ := Int.lt_floor_add_one x
  unfold halfEven
  dsimp only
  split_ifs <;> push_cast <;> rw [abs_le] <;> constructor <;> linarith

theorem two_zpow_pos (p : ℤ) : (0 : ℚ)<(2 : ℚ)^p := zpow_pos (by norm_num) p

/-- An integer of which the last place takes off factors two only stays as it is. -/
theorem halfEven_div_place {n : ℤ} {e : ℕ} (hdvd : (2 : ℤ)^e ∣ n) (hp : place n ≤ e) :
    (halfEven (n/(2 : ℚ)^place n) : ℚ)*(2 : ℚ)^place n=n := by
  obtain ⟨m,rfl⟩ := hdvd
  obtain ⟨k,hk⟩ := Int.eq_ofNat_of_zero_le (show 0 ≤ (e : ℤ)-place ((2^e*m : ℤ) : ℚ) by omega)
  have hdiv : ((2^e*m : ℤ) : ℚ)/(2 : ℚ)^place ((2^e*m : ℤ) : ℚ)=((m*2^k : ℤ) : ℚ) := by
    have hplace : place ((2^e*m : ℤ) : ℚ)=e-k := by omega
    rw [hplace,zpow_sub₀ (by norm_num),zpow_natCast,zpow_natCast]
    push_cast
    field_simp
  rw [hdiv,halfEven_intCast,← hdiv,div_mul_cancel₀ _ (two_zpow_pos _).ne']

/-- Integers of at most 53 binary digits, up to trailing zeros, are doubles. -/
theorem round_of_dvd {n : ℤ} {e : ℕ} (hdvd : (2 : ℤ)^e ∣ n) (h : |n|<2^(53+e)) (he : e ≤ 64) :
    round n=.fin n := by
  have hp : place n ≤ e := by
    unfold place
    have hlog : Int.log 2 |(n : ℚ)|<53+e := by
      by_cases hn : n=0
      · simp [hn]
        omega
      · rw [← Int.lt_zpow_iff_log_lt (by decide) (by positivity)]
        exact_mod_cast h
    omega
  have hsmall : ¬(2 : ℚ)^1024 ≤ |(n : ℚ)| := by
    rw [not_le]
    calc |(n : ℚ)| < 2^(53+e) := by exact_mod_cast h
      _ ≤ 2^1024 := pow_le_pow_right₀ (by norm_num) (by omega)
  unfold round
  rw [halfEven_div_place hdvd hp,if_neg hsmall]

theorem halfEven_abs_le {x : ℚ} {n : ℕ} (h : |x| ≤ n) : |halfEven x| ≤ n := by
  have hhalf := abs_le.mp (abs_halfEven_sub_le x)
  have hx := abs_le.mp h
  have hlo : -(n : ℚ)-1<halfEven x := by linarith [hhalf.1,hx.1]
  have hhi : (halfEven x : ℚ)<n+1 := by linarith [hhalf.2,hx.2]
  have hlo' : -(n : ℤ)-1<halfEven x := by exact_mod_cast hlo
  have hhi' : halfEven x<n+1 := by exact_mod_cast hhi
  rw [abs_le]
  omega

/-- A number is less than `2^53` of its last places. -/
theorem abs_div_place_le (x : ℚ) : |x/(2 : ℚ)^place x| ≤ ((2^53 : ℕ) : ℚ) := by
  by_cases hx : x=0
  · subst hx
    simp
  have hlog : |x|<(2 : ℚ)^(Int.log 2 |x|+1) := by
    exact_mod_cast Int.lt_zpow_succ_log_self (b := 2) (by norm_num) |x|
  have hle : (2 : ℚ)^(Int.log 2 |x|+1) ≤ (2 : ℚ)^(53+place x) := by
    apply zpow_le_zpow_right₀ (by norm_num)
    unfold place
    omega
  rw [abs_div,abs_of_pos (two_zpow_pos _),div_le_iff₀ (two_zpow_pos _)]
  refine (hlog.trans_le hle).le.trans_eq ?_
  rw [zpow_add₀ (by norm_num)]
  norm_num

/-- A multiple of a last place with at most 53 binary digits is a double. -/
theorem round_multiple {m p : ℤ} (hm : |m|<2^53) (hp : -1074 ≤ p)
    (hsmall : ¬(2 : ℚ)^1024 ≤ |(m : ℚ)*(2 : ℚ)^p|) :
    round ((m : ℚ)*(2 : ℚ)^p)=.fin ((m : ℚ)*(2 : ℚ)^p) := by
  by_cases hm0 : m=0
  · subst hm0
    rw [Int.cast_zero,zero_mul]
    decide +kernel
  have hplace : place ((m : ℚ)*(2 : ℚ)^p) ≤ p := by
    have hlog : Int.log 2 |(m : ℚ)*(2 : ℚ)^p|<53+p := by
      have hpos := two_zpow_pos p
      rw [← Int.lt_zpow_iff_log_lt (by decide) (by positivity)]
      push_cast
      rw [abs_mul,abs_of_pos hpos,zpow_add₀ (by norm_num)]
      apply mul_lt_mul_of_pos_right _ hpos
      exact_mod_cast hm
    unfold place
    omega
  obtain ⟨k,hk⟩ := Int.eq_ofNat_of_zero_le (show 0 ≤ p-place ((m : ℚ)*(2 : ℚ)^p) by omega)
  have hdiv : (m : ℚ)*(2 : ℚ)^p/(2 : ℚ)^place ((m : ℚ)*(2 : ℚ)^p)=((m*2^k : ℤ) : ℚ) := by
    rw [mul_div_assoc,← zpow_sub₀ (by norm_num),hk]
    push_cast
    rfl
  unfold round
  dsimp only
  rw [hdiv,halfEven_intCast,← hdiv,div_mul_cancel₀ _ (two_zpow_pos _).ne',if_neg hsmall]

/-! Rounding keeps the order of numbers that are not negative. -/
section
variable {x y : ℚ}

theorem halfEven_mono (h : x ≤ y) : halfEven x ≤ halfEven y := by
  have hfloor : ⌊x⌋ ≤ ⌊y⌋ := Int.floor_le_floor h
  obtain heq|hlt := hfloor.eq_or_lt
  · unfold halfEven
    rw [heq]
    dsimp only
    split_ifs <;> first | omega | linarith
  · have hx : halfEven x ≤ ⌊x⌋+1 := by
      unfold halfEven
      dsimp only
      split_ifs <;> omega
    have hy : ⌊y⌋ ≤ halfEven y := by
      unfold halfEven
      dsimp only
      split_ifs <;> omega
    omega

theorem place_mono (hpos : 0<x) (h : x ≤ y) : place x ≤ place y := by
  have hlog : Int.log 2 |x| ≤ Int.log 2 |y| := by
    rw [abs_of_pos hpos,abs_of_pos (hpos.trans_le h)]
    exact Int.log_mono_right hpos h
  unfold place
  omega

/-- The nearest number with 53 binary digits, the exponent being as large as it may. -/
def nearest (x : ℚ) : ℚ := halfEven (x/(2 : ℚ)^place x)*(2 : ℚ)^place x

theorem round_eq (x : ℚ) : round x=if (2 : ℚ)^1024 ≤ |nearest x| then .inf (x<0) else .fin (nearest x) := rfl

theorem nearest_zero : nearest 0=0 := by
  unfold nearest
  rw [zero_div]
  exact (congrArg (· * _) (congrArg Int.cast (halfEven_intCast 0))).trans (by simp)

theorem nearest_nonneg (h : 0 ≤ x) : 0 ≤ nearest x := by
  have hx : halfEven ((0 : ℤ) : ℚ) ≤ halfEven (x/(2 : ℚ)^place x) :=
    halfEven_mono (by rw [Int.cast_zero]; exact div_nonneg h (two_zpow_pos _).le)
  rw [halfEven_intCast] at hx
  exact mul_nonneg (by exact_mod_cast hx) (two_zpow_pos _).le

theorem nearest_mono (h₀ : 0 ≤ x) (h : x ≤ y) : nearest x ≤ nearest y := by
  obtain rfl|hpos := h₀.eq_or_lt
  · rw [nearest_zero]
    exact nearest_nonneg h
  obtain heq|hlt := (place_mono hpos h).eq_or_lt
  · unfold nearest
    rw [heq]
    have hdiv := halfEven_mono ((div_le_div_iff_of_pos_right (two_zpow_pos (place y))).mpr h)
    exact mul_le_mul_of_nonneg_right (by exact_mod_cast hdiv) (two_zpow_pos _).le
  · -- between them is the power of two from which on the places are larger
    have hx : nearest x ≤ (2 : ℚ)^(53+place x) := by
      have habs := le_of_abs_le (halfEven_abs_le (abs_div_place_le x))
      rw [zpow_add₀ (by norm_num)]
      exact mul_le_mul_of_nonneg_right (by exact_mod_cast habs) (two_zpow_pos _).le
    have hy : (2 : ℚ)^(52+place y) ≤ nearest y := by
      have hplace : place y=Int.log 2 |y|-52 := by
        have hmin : -1074 ≤ place x := le_max_right _ _
        unfold place at hlt hmin ⊢
        omega
      have hlog : (2 : ℚ)^(52+place y) ≤ y := by
        have hle := Int.zpow_log_le_self (b := 2) (by norm_num) (abs_pos.mpr (hpos.trans_le h).ne')
        rw [abs_of_pos (hpos.trans_le h)] at hle hplace
        rw [hplace,add_sub_cancel]
        exact_mod_cast hle
      have hdiv : (((2^52 : ℕ) : ℤ) : ℚ) ≤ y/(2 : ℚ)^place y := by
        rw [le_div_iff₀ (two_zpow_pos _)]
        refine le_trans (le_of_eq ?_) hlog
        rw [zpow_add₀ (by norm_num)]
        norm_num
      have hround := halfEven_mono hdiv
      rw [halfEven_intCast] at hround
      rw [zpow_add₀ (by norm_num)]
      refine mul_le_mul_of_nonneg_right ?_ (two_zpow_pos _).le
      exact_mod_cast hround
    exact hx.trans ((zpow_le_zpow_right₀ (by norm_num) (by omega)).trans hy)

end

/-- Rounding a double changes nothing. -/
theorem round_of_round {x y : ℚ} (h : round x=.fin y) : round y=.fin y := by
  unfold round at h
  dsimp only at h
  split at h
  · cases h
  next hsmall =>
    obtain rfl := Js.Num.fin.inj h
    have hm := halfEven_abs_le (abs_div_place_le x)
    have hp : -1074 ≤ place x := le_max_right _ _
    generalize halfEven (x/(2 : ℚ)^place x)=m at hm hsmall ⊢
    generalize place x=p at hp hsmall ⊢
    by_cases hlt : |m|<2^53
    · exact round_multiple hlt hp hsmall
    · -- the power of two itself is half as many of the next place
      have heq : |m|=2^53 := le_antisymm (by exact_mod_cast hm) (not_lt.mp hlt)
      obtain ⟨n,rfl,hn⟩ : ∃ n : ℤ, m=n*2 ∧ |n|<2^53 := by
        obtain rfl|rfl := (abs_eq (by norm_num)).mp heq
        · exact ⟨2^52,by norm_num,by norm_num⟩
        · exact ⟨-2^52,by norm_num,by norm_num⟩
      have hdouble : ((n*2 : ℤ) : ℚ)*(2 : ℚ)^p=(n : ℚ)*(2 : ℚ)^(p+1) := by
        rw [zpow_add_one₀ (by norm_num)]
        push_cast
        ring
      rw [hdouble] at hsmall ⊢
      exact round_multiple hn (by omega) hsmall

theorem round_intCast {n : ℤ} (h : |n|<2^53) : round n=.fin n :=
  round_of_dvd (e := 0) (by simp) (by simpa using h) (by omega)

/-- The double nearest to an integer is an integer. -/
theorem exists_round_intCast {n : ℤ} (h : |n| ≤ 2^64) : ∃ m : ℤ, round n=.fin m := by
  by_cases hp : place n ≤ 0
  · have hsmall : ¬(2 : ℚ)^1024 ≤ |(n : ℚ)| := by
      rw [not_le]
      calc |(n : ℚ)| ≤ 2^64 := by exact_mod_cast h
        _ < 2^1024 := pow_lt_pow_right₀ (by norm_num) (by norm_num)
    refine ⟨n,?_⟩
    unfold round
    rw [halfEven_div_place (e := 0) (by simp) (by simpa using hp),if_neg hsmall]
  · -- the last place is above one, so the multiple of it is an integer
    obtain ⟨k,hk⟩ := Int.eq_ofNat_of_zero_le (show 0 ≤ place n by omega)
    have hy : (halfEven (n/(2 : ℚ)^place n) : ℚ)*(2 : ℚ)^place n =
        ((halfEven (n/(2 : ℚ)^place n)*2^k : ℤ) : ℚ) := by
      rw [hk]
      push_cast
      rw [zpow_natCast]
    have hle : (2 : ℚ)^place n ≤ |(n : ℚ)| := by
      have hn : n ≠ 0 := by
        rintro rfl
        exact hp (by unfold place; simp)
      have hlog : place n ≤ Int.log 2 |(n : ℚ)| := by
        unfold place at hp ⊢
        omega
      calc (2 : ℚ)^place n ≤ (2 : ℚ)^Int.log 2 |(n : ℚ)| := zpow_le_zpow_right₀ (by norm_num) hlog
        _ ≤ |(n : ℚ)| := Int.zpow_log_le_self (b := 2) (by norm_num) (abs_pos.mpr (by exact_mod_cast hn))
    have hnear := abs_halfEven_sub_le ((n : ℚ)/(2 : ℚ)^place n)
    have hbound : |(halfEven (n/(2 : ℚ)^place n) : ℚ)*(2 : ℚ)^place n| ≤ 2*|(n : ℚ)| := by
      have hpos := two_zpow_pos (place n)
      have hdiff : |(halfEven (n/(2 : ℚ)^place n) : ℚ)*(2 : ℚ)^place n-n| ≤ 1/2*(2 : ℚ)^place n := by
        rw [show (halfEven (n/(2 : ℚ)^place n) : ℚ)*(2 : ℚ)^place n-n =
          ((halfEven (n/(2 : ℚ)^place n) : ℚ)-n/(2 : ℚ)^place n)*(2 : ℚ)^place n by field_simp,
          abs_mul,abs_of_pos hpos]
        exact mul_le_mul_of_nonneg_right hnear hpos.le
      have htri := abs_sub_abs_le_abs_sub ((halfEven (n/(2 : ℚ)^place n) : ℚ)*(2 : ℚ)^place n) n
      linarith
    have hsmall : ¬(2 : ℚ)^1024 ≤ |(halfEven (n/(2 : ℚ)^place n) : ℚ)*(2 : ℚ)^place n| := by
      rw [not_le]
      have h64 : |(n : ℚ)| ≤ 2^64 := by exact_mod_cast h
      calc _ ≤ 2*|(n : ℚ)| := hbound
        _ ≤ 2*2^64 := by linarith
        _ < 2^1024 := by
          rw [← pow_succ']
          exact pow_lt_pow_right₀ (by norm_num) (by norm_num)
    refine ⟨halfEven (n/(2 : ℚ)^place n)*2^k,?_⟩
    unfold round
    rw [if_neg hsmall,hy]

theorem decimal_intCast {n : ℤ} {k : ℕ} (hk : Int.log 10 (n : ℚ)+1 ≤ k) : decimal n k=n := by
  obtain ⟨j,hj⟩ := Int.eq_ofNat_of_zero_le (show 0 ≤ -(Int.log 10 (n : ℚ)+1-k) by omega)
  have hdiv : (n : ℚ)/(10 : ℚ)^(Int.log 10 (n : ℚ)+1-k)=((n*10^j : ℤ) : ℚ) := by
    rw [show Int.log 10 (n : ℚ)+1-k=-(j : ℤ) by omega,zpow_neg,div_inv_eq_mul,zpow_natCast]
    push_cast
    rfl
  unfold decimal
  dsimp only
  rw [hdiv,halfEven_intCast,← hdiv,div_mul_cancel₀ _ (zpow_pos (by norm_num) _).ne']

/-- A decimal of fewer digits than the integer has is an even integer about as large. -/
theorem decimal_of_lt {n : ℤ} {k : ℕ} (hn : 0<n) (hk : (k : ℤ)<Int.log 10 (n : ℚ)+1) (hk₀ : 0<k) :
    ∃ d : ℤ, decimal n k=d ∧ 2 ∣ d ∧ |d| ≤ 2*n := by
  obtain ⟨j,hj⟩ := Int.eq_ofNat_of_zero_le (show 0 ≤ Int.log 10 (n : ℚ)+1-k by omega)
  have hj₀ : j ≠ 0 := by
    rintro rfl
    omega
  have hn' : (0 : ℚ)<n := by exact_mod_cast hn
  have hunit : (10 : ℚ)^j ≤ n := by
    refine le_trans ?_ (Int.zpow_log_le_self (b := 10) (by norm_num) hn')
    rw [← zpow_natCast]
    exact zpow_le_zpow_right₀ (by norm_num) (by omega)
  refine ⟨halfEven (n/(10 : ℚ)^j)*10^j,?_,?_,?_⟩
  · unfold decimal
    dsimp only
    rw [hj,zpow_natCast]
    push_cast
    rfl
  · exact Dvd.dvd.mul_left (dvd_pow (by norm_num) hj₀) _
  · have hpos : (0 : ℚ)<(10 : ℚ)^j := by positivity
    have hnear := abs_halfEven_sub_le ((n : ℚ)/(10 : ℚ)^j)
    rw [abs_le] at hnear
    have hdiv : (n : ℚ)/(10 : ℚ)^j*(10 : ℚ)^j=n := div_mul_cancel₀ _ hpos.ne'
    have hle : |(halfEven ((n : ℚ)/(10 : ℚ)^j)*10^j : ℚ)| ≤ 2*n := by
      rw [abs_le]
      constructor <;> nlinarith
    exact_mod_cast hle

/-- The shortest decimal of an integer below `2^53` is the integer. -/
theorem shortest_intCast {n : ℤ} (hn : 0<n) (h : n<2^53) : shortest n=n := by
  have hn' : (0 : ℚ)<n := by exact_mod_cast hn
  have hself : round n=.fin n := round_intCast (by rw [abs_of_pos hn]; exact h)
  have hlog : Int.log 10 (n : ℚ)<16 := by
    rw [← Int.lt_zpow_iff_log_lt (by norm_num) hn']
    have : n<10^16 := lt_trans h (by norm_num)
    exact_mod_cast this
  have hlog₀ : 0 ≤ Int.log 10 (n : ℚ) := by
    rw [← Int.zpow_le_iff_le_log (by norm_num) hn']
    exact_mod_cast hn
  -- the decimals that read as the integer are the integer itself
  have honly : ∀ d ∈ (List.range' 1 17).map (decimal n), round d=.fin n → d=n := by
    intro d hd hround
    obtain ⟨k,hk,rfl⟩ := List.mem_map.mp hd
    have hk₀ : 0<k := by
      have := List.mem_range'.mp hk
      omega
    by_cases hle : Int.log 10 (n : ℚ)+1 ≤ k
    · exact decimal_intCast hle
    · obtain ⟨d,hd,hdvd,hdle⟩ := decimal_of_lt hn (by omega) hk₀
      rw [hd] at hround ⊢
      rw [round_of_dvd (e := 1) (by simpa using hdvd) (by norm_num at h ⊢; omega) (by omega)] at hround
      exact Js.Num.fin.inj hround
  have habs : |(n : ℚ)|=n := abs_of_pos hn'
  have hmem : (n : ℚ) ∈ (List.range' 1 17).map (decimal n) := by
    obtain ⟨k,hk⟩ := Int.eq_ofNat_of_zero_le hlog₀
    refine List.mem_map.mpr ⟨k+1,List.mem_range'.mpr ⟨k,by omega,by omega⟩,decimal_intCast ?_⟩
    push_cast
    omega
  unfold shortest
  dsimp only
  rw [habs,if_neg (by linarith),one_mul]
  cases hf : ((List.range' 1 17).map (decimal n)).find? fun d => decide (round d=.fin n) with
  | none => exact absurd hself (by simpa using List.find?_eq_none.mp hf n hmem)
  | some d =>
    exact honly d (List.mem_of_find?_eq_some hf) (by simpa using List.find?_some hf)

theorem shortest_eq_abs (x : ℚ) : shortest x=(if x<0 then -1 else 1)*shortest |x| := by
  unfold shortest
  dsimp only
  rw [abs_abs,if_neg (not_lt.mpr (abs_nonneg x)),one_mul]

theorem shortest_of_small {n : ℤ} (hn : n ≠ 0) (h : |n|<2^53) : shortest n=n := by
  rw [shortest_eq_abs,← Int.cast_abs,shortest_intCast (abs_pos.mpr hn) h]
  rcases lt_or_gt_of_ne hn with hlt|hlt
  · rw [if_pos (by exact_mod_cast hlt),abs_of_neg hlt]
    push_cast
    ring
  · rw [if_neg (by exact_mod_cast not_lt.mpr hlt.le),abs_of_pos hlt,one_mul]

/-- A text is its part up to the trailing zeros, and the zeros. -/
theorem append_zeros (cs : List Char) :
    (cs.reverse.dropWhile fun c => c = '0').reverse ++
      List.replicate (cs.length-(cs.reverse.dropWhile fun c => c = '0').reverse.length) '0'=cs := by
  have hsplit := List.takeWhile_append_dropWhile (p := fun c => decide (c = '0')) (l := cs.reverse)
  have hzeros : (cs.reverse.takeWhile fun c => c = '0') =
      List.replicate (cs.reverse.takeWhile fun c => c = '0').length '0' := by
    refine List.eq_replicate_iff.mpr ⟨rfl,fun c hc => ?_⟩
    simpa using List.mem_takeWhile_imp hc
  have hlen := congrArg List.length hsplit
  rw [List.length_append,List.length_reverse] at hlen
  rw [List.length_reverse,show cs.length-(cs.reverse.dropWhile fun c => c = '0').length =
    (cs.reverse.takeWhile fun c => c = '0').length by omega,
    ← List.reverse_replicate,← hzeros,← List.reverse_append,hsplit,List.reverse_reverse]

/-- An integer of at most 21 digits is printed in full. -/
theorem numberText_intCast {n : ℤ} (hn : n ≠ 0) (h : n.natAbs<10^21) : numberText n=toString n := by
  have hd : decimalsOf n=0 := by
    unfold decimalsOf
    rw [Rat.den_intCast]
    decide
  have hm : ⌊|(n : ℚ)| * 10^(0 : ℕ)⌋.toNat=n.natAbs := by
    rw [pow_zero,mul_one,← Int.cast_abs,Int.floor_intCast,Int.abs_eq_natAbs,Int.toNat_natCast]
  have hlen : (toString n.natAbs).length ≤ 21 := by
    rw [String.length,natText_toList]
    exact (Nat.length_toDigits_le_iff (by decide) (by decide)).mpr h
  have htext : ∀ m : ℕ, (toString m).length=(toString m).toList.length := fun m => by
    rw [String.length]
  have hbody : String.ofList ((toString n.natAbs).toList.reverse.dropWhile fun c => c = '0').reverse ++
      zeros ((toString n.natAbs).length -
        ((toString n.natAbs).toList.reverse.dropWhile fun c => c = '0').reverse.length) =
        toString n.natAbs := by
    refine String.toList_injective ?_
    rw [String.toList_append,String.toList_ofList,zeros,String.toList_ofList,htext]
    exact append_zeros _
  have hk : ((toString n.natAbs).toList.reverse.dropWhile fun c => c = '0').reverse.length ≤
      (toString n.natAbs).length := by
    rw [List.length_reverse,htext]
    exact (List.dropWhile_sublist _).length_le.trans List.length_reverse.le
  have hx : (n : ℚ) ≠ 0 := by exact_mod_cast hn
  have hcond : ((((toString n.natAbs).toList.reverse.dropWhile fun c => c = '0').reverse.length : ℕ) : ℤ) ≤
      ((toString n.natAbs).length : ℤ)-(0 : ℕ) ∧ ((toString n.natAbs).length : ℤ)-(0 : ℕ) ≤ 21 := by
    omega
  have hcount : ((((toString n.natAbs).length : ℤ)-(0 : ℕ)) -
      ((toString n.natAbs).toList.reverse.dropWhile fun c => c = '0').reverse.length).toNat =
      (toString n.natAbs).length -
        ((toString n.natAbs).toList.reverse.dropWhile fun c => c = '0').reverse.length := by
    omega
  have hneg : (n : ℚ)<0 ↔ n<0 := by exact_mod_cast Iff.rfl
  unfold numberText
  rw [if_neg hx]
  simp only [hd,hm]
  rw [if_pos hcond,hcount,hbody]
  cases n with
  | ofNat k =>
    rw [if_neg (by rw [hneg]; simp),String.empty_append]
    rfl
  | negSucc k =>
    rw [if_pos (by rw [hneg]; simp)]
    rfl

/-- An integer below `2^53` is printed as it is. -/
theorem text_round_intCast {n : ℤ} (h : |n|<2^53) : text (round n)=toString n := by
  rw [round_intCast h]
  by_cases hn : n=0
  · subst hn
    rfl
  · have hx : (n : ℚ) ≠ 0 := by exact_mod_cast hn
    rw [text,if_neg hx,shortest_of_small hn h]
    rw [Int.abs_eq_natAbs] at h
    exact numberText_intCast hn (by omega)

end Double
