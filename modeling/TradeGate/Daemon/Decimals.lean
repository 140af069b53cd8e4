import Mathlib.Tactic.IntervalCases
import TradeGate.Model.Filters
import TradeGate.Number.Numeral

/-! Decimals that the daemon prints are read back: a number that does not vanish at twelve decimals does
not read as zero. -/
namespace TradeGate.ExecCore
open Js

section
variable {cs xs ys : List Char} {x q : ℚ}

theorem isWhitespace_of_plain {c : Char} (h : IsPlain c) : Rust.isWhitespace c=false := by
  have hn : 48 ≤ c.toNat ∧ c.toNat ≤ 57 ∨ c.toNat=46 := by
    obtain hd|rfl := h
    · exact .inl (toNat_of_isDigit hd)
    · exact .inr rfl
  unfold Rust.isWhitespace
  dsimp only
  rw [decide_eq_false_iff_not]
  omega

theorem toLower_of_isDigit {c : Char} (h : c.isDigit=true) : c.toLower=c := by
  obtain ⟨d,hd,rfl⟩ := Rust.digitChar_of_isDigit h
  interval_cases d <;> rfl

theorem trim_of_none (h : ∀ c ∈ cs, Rust.isWhitespace c=false) : Rust.trim cs=cs := trimmed_none h

/-- The text has no sign but maybe a minus, and goes on with a digit. -/
def Signed (cs : List Char) : Prop :=
  ∃ ds, (∃ c ∈ ds.head?, c.isDigit=true) ∧ (∀ c ∈ ds, IsPlain c) ∧ (cs=ds ∨ cs = '-'::ds)

/-- A decimal text is read as the double nearest to it. -/
theorem parseF64_signed (h : Signed cs) : parseF64 (String.ofList cs)=(number (String.ofList cs)).map Double.round := by
  obtain ⟨ds,⟨c,hc,hd⟩,hplain,hcs⟩ := h
  have hblank : ∀ c ∈ cs, Rust.isWhitespace c=false := by
    intro e he
    obtain rfl|rfl := hcs
    · exact isWhitespace_of_plain (hplain e he)
    · obtain rfl|he := List.mem_cons.mp he
      · decide
      · exact isWhitespace_of_plain (hplain e he)
  obtain ⟨es,rfl⟩ : ∃ es, ds=c::es := by
    cases ds with
    | nil => cases hc
    | cons d es =>
      cases hc
      exact ⟨es,rfl⟩
  have hsign : (sign cs).2=c::es := by
    obtain rfl|rfl := hcs
    · unfold sign
      split
      · next h =>
        cases h
        cases hd
      · next h =>
        cases h
        cases hd
      · rfl
    · rfl
  have hne : cs ≠ [] := by
    obtain rfl|rfl := hcs <;> exact List.cons_ne_nil _ _
  have hword : ∀ s : String, (∃ e ∈ s.toList.head?, e.isDigit=false) → (c::es).map Char.toLower ≠ s.toList := by
    rintro s ⟨e,he,hn⟩ h
    rw [← h] at he
    cases he
    rw [toLower_of_isDigit hd,hd] at hn
    cases hn
  unfold parseF64
  dsimp only
  rw [String.toList_ofList,trim_of_none hblank,hsign,if_neg (hword _ ⟨'n',rfl,by decide⟩),
    if_neg (not_or.mpr ⟨hword _ ⟨'i',rfl,by decide⟩,hword _ ⟨'i',rfl,by decide⟩⟩),if_neg hne]

theorem number_of_ofText (hc : ∃ c ∈ cs.head?, c.isDigit=true) (h : ∀ c ∈ cs, IsPlain c)
    (hq : Js.Num.ofText (String.ofList cs)=.fin q) : number (String.ofList cs)=some q := by
  rw [Js.Num.ofText_plain hc h] at hq
  cases hn : number (String.ofList cs) with
  | none =>
    rw [hn] at hq
    cases hq
  | some y =>
    rw [hn] at hq
    exact congrArg some (Js.Num.fin.inj hq)

theorem trimEnd_replicate (c : Char) (cs : List Char) (n : ℕ) :
    trimEnd c (cs++List.replicate n c)=trimEnd c cs := by
  unfold trimEnd
  rw [List.reverse_append,List.reverse_replicate,List.dropWhile_append_of_pos]
  intro d hd
  rw [List.eq_of_mem_replicate hd]
  exact decide_eq_true rfl

theorem trimEnd_of_last {c d : Char} (h : d ≠ c) (cs : List Char) : trimEnd c (cs++[d])=cs++[d] := by
  unfold trimEnd
  rw [List.reverse_append,List.reverse_singleton,List.singleton_append,
    List.dropWhile_cons_of_neg (by simpa using h),List.reverse_cons,List.reverse_reverse]

/-- A text ends in zeros, and what is before them does not end in one. -/
theorem exists_zeros (ys : List Char) : ∃ zs n, ys=zs++List.replicate n '0' ∧
    (zs=[] ∨ ∃ ws d, zs=ws++[d] ∧ d ≠ '0') := by
  refine ⟨_,_,(Double.append_zeros ys).symm,?_⟩
  cases hz : ys.reverse.dropWhile fun c => decide (c = '0') with
  | nil => exact .inl rfl
  | cons d ws =>
    refine .inr ⟨ws.reverse,d,List.reverse_cons,?_⟩
    have hcons : ys.reverse.dropWhile (fun c => decide (c = '0')) ≠ [] := by
      rw [hz]
      exact List.cons_ne_nil _ _
    have hd := List.head_dropWhile_not (fun c => decide (c = '0')) hcons
    simpa [hz] using hd

/-- The last zeros go, and the point with them if all are zeros. -/
theorem trimEnd_point (as : List Char) {d : Char} (hd : d.isDigit=true) (hy : ∀ c ∈ ys, c.isDigit=true) :
    ∃ zs n, ys=zs++List.replicate n '0' ∧
      trimEnd '.' (trimEnd '0' (as++[d]++ '.'::ys))=as++[d]++pointed zs := by
  obtain ⟨zs,n,rfl,hzs⟩ := exists_zeros ys
  refine ⟨zs,n,rfl,?_⟩
  have hsplit : as++[d]++ '.'::(zs++List.replicate n '0') =
      (as++[d]++ '.'::zs)++List.replicate n '0' := by simp
  rw [hsplit,trimEnd_replicate]
  obtain rfl|⟨ws,e,rfl,hne⟩ := hzs
  · have hpoint := trimEnd_replicate '.' (as++[d]) 1
    rw [List.replicate_one] at hpoint
    have hd' : d ≠ '.' := by
      rintro rfl
      cases hd
    rw [trimEnd_of_last (by decide),hpoint,trimEnd_of_last hd',pointed,if_pos rfl,List.append_nil]
  · have he : e ≠ '.' := by
      rintro rfl
      cases hy '.' (by simp)
    have hlast : as++[d]++ '.'::(ws++[e])=(as++[d]++ '.'::ws)++[e] := by simp
    rw [hlast,trimEnd_of_last hne,trimEnd_of_last he,pointed,if_neg (by simp),← hlast]

theorem ofText_pointed {zs : List Char} {n : ℕ} (hne : xs ≠ []) (hx : ∀ c ∈ xs, c.isDigit=true)
    (hy : ∀ c ∈ zs++List.replicate n '0', c.isDigit=true) :
    Js.Num.ofText (String.ofList (xs++pointed zs)) =
      .fin (Nat.ofDigitChars 10 (xs++(zs++List.replicate n '0')) 0/10^(zs++List.replicate n '0').length) := by
  have hten : (10 : ℚ)^n ≠ 0 := by positivity
  have hvalue : (Nat.ofDigitChars 10 (xs++(zs++List.replicate n '0')) 0 : ℚ) /
      10^(zs++List.replicate n '0').length=Nat.ofDigitChars 10 (xs++zs) 0/10^zs.length := by
    rw [← List.append_assoc,Nat.ofDigitChars_append,Nat.ofDigitChars_replicate_zero,
      List.length_append,List.length_replicate,pow_add]
    push_cast
    field_simp
  rw [hvalue]
  unfold pointed
  by_cases hz : zs=[]
  · subst hz
    rw [if_pos rfl,List.append_nil,Js.Num.ofText_digits hne hx,List.length_nil,pow_zero,div_one]
  · rw [if_neg hz,Js.Num.ofText_decimal hne hx fun c hc => hy c (List.mem_append_left _ hc)]

/-- A number that does not vanish at twelve decimals is no zero as a double. -/
theorem round_ne_zero (h : 1/10^12 ≤ |x|) : Double.round x ≠ .fin 0 := by
  have hpos := Double.two_zpow_pos (Double.place x)
  have hx : x ≠ 0 := by
    rintro rfl
    norm_num at h
  have hplace : (2 : ℚ)^Double.place x ≤ |x| := by
    unfold Double.place
    rcases max_choice (Int.log 2 |x|-52) (-1074) with hp|hp
    · rw [hp]
      have hlog : (2 : ℚ)^Int.log 2 |x| ≤ |x| := by
        exact_mod_cast Int.zpow_log_le_self (b := 2) (by norm_num) (abs_pos.mpr hx)
      have hle : (2 : ℚ)^(Int.log 2 |x|-52) ≤ (2 : ℚ)^Int.log 2 |x| :=
        zpow_le_zpow_right₀ (by norm_num) (by omega)
      exact hle.trans hlog
    · rw [hp]
      have hle : (2 : ℚ)^(-1074 : ℤ) ≤ (2 : ℚ)^(-40 : ℤ) := zpow_le_zpow_right₀ (by norm_num) (by omega)
      have hforty : (2 : ℚ)^(-40 : ℤ) ≤ 1/10^12 := by norm_num
      exact (hle.trans hforty).trans h
  intro hround
  have hzero : (Double.halfEven (x/(2 : ℚ)^Double.place x) : ℚ)*(2 : ℚ)^Double.place x=0 := by
    unfold Double.round at hround
    dsimp only at hround
    split at hround
    · cases hround
    · exact Js.Num.fin.inj hround
  have hhalf := Double.abs_halfEven_sub_le (x/(2 : ℚ)^Double.place x)
  rw [(mul_eq_zero.mp hzero).resolve_right hpos.ne',zero_sub,abs_neg,abs_div,abs_of_pos hpos,
    div_le_iff₀ hpos] at hhalf
  linarith

/-- A number with a whole number of its last decimals is printed with a sign or none, and read back. -/
theorem toFixed_signed {d : ℕ} {n : ℤ} (h : x*10^d=n) :
    ∃ cs, toFixed x d=String.ofList cs ∧ Signed cs ∧ number (String.ofList cs)=some x := by
  have hten := ten_pow_pos d
  have hx : x=n/10^d := by
    rw [eq_div_iff hten.ne',h]
  have habs : |x|=(n.natAbs : ℚ)/10^d := by
    rw [hx,abs_div,abs_of_pos hten,Nat.cast_natAbs,Int.cast_abs]
  have hfloor : ⌊|x| * 10^d+1/2⌋.toNat=n.natAbs := by
    rw [habs,div_mul_cancel₀ _ hten.ne',Int.floor_natCast_add,show ⌊(1/2 : ℚ)⌋=0 by norm_num,add_zero,
      Int.toNat_natCast]
  obtain ⟨cs,hhead,hplain,htext,hread⟩ := fixed_digits n.natAbs d
  have hnum := number_of_ofText hhead hplain hread
  unfold toFixed
  dsimp only
  rw [hfloor,String.append_assoc,htext]
  by_cases hneg : x<0
  · have hminus : "-" ++ String.ofList cs=String.ofList ('-'::cs) := by
      rw [show "-"=String.ofList ['-'] from rfl,← String.ofList_append]
      rfl
    refine ⟨'-'::cs,by rw [if_pos hneg,hminus],⟨cs,hhead,hplain,.inr rfl⟩,?_⟩
    rw [number_neg hhead hplain,hnum,Option.map_some,← habs,abs_of_neg hneg,neg_neg]
  · refine ⟨cs,by rw [if_neg hneg,String.empty_append],⟨cs,hhead,hplain,.inl rfl⟩,?_⟩
    rw [hnum,← habs,abs_of_nonneg (not_lt.mp hneg)]

theorem toFixed_point (m : ℕ) {d : ℕ} (hd : 0<d) : ∃ xs ys : List Char, xs ≠ [] ∧
    (∀ c ∈ xs, c.isDigit=true) ∧ (∀ c ∈ ys, c.isDigit=true) ∧ ys.length=d ∧
    Nat.ofDigitChars 10 (xs++ys) 0=m ∧ toFixed ((m : ℚ)/10^d) d=String.ofList (xs++ '.'::ys) := by
  obtain ⟨xs,ys,hne,hx,hy,hlen,hvalue,htext⟩ := fixed_point m hd
  have hten := ten_pow_pos d
  have hpos : ¬(m : ℚ)/10^d<0 := not_lt.mpr (by positivity)
  have hfloor : ⌊|(m : ℚ)/10^d| * 10^d+1/2⌋.toNat=m := by
    rw [abs_of_nonneg (by positivity),div_mul_cancel₀ _ hten.ne',Int.floor_natCast_add,
      show ⌊(1/2 : ℚ)⌋=0 by norm_num,add_zero,Int.toNat_natCast]
  refine ⟨xs,ys,hne,hx,hy,hlen,hvalue,?_⟩
  unfold toFixed
  dsimp only
  rw [hfloor,if_neg hpos,String.empty_append,htext]

/-- A number with fixed decimals, without its last zeros, is read back up to its sign. -/
theorem trimmed_signed (m : ℕ) {d : ℕ} (hd : 0<d) (negative : Bool) :
    ∃ cs, trimEnd '.' (trimEnd '0' ((if negative then ['-'] else []) ++
        (toFixed ((m : ℚ)/10^d) d).toList))=cs ∧ cs ≠ [] ∧ Signed cs ∧
      ∃ v, number (String.ofList cs)=some v ∧ |v|=m/10^d := by
  obtain ⟨xs,ys,hne,hx,hy,hlen,hvalue,htext⟩ := toFixed_point m hd
  obtain ⟨as,c,rfl⟩ := (List.eq_nil_or_concat' xs).resolve_left hne
  have hc : c.isDigit=true := hx c (by simp)
  obtain ⟨zs,n,rfl,htrim⟩ := trimEnd_point ((if negative then ['-'] else [])++as) hc hy
  have hread := ofText_pointed hne hx hy
  rw [hvalue,hlen] at hread
  have hhead : ∃ e ∈ (as++[c]++pointed zs).head?, e.isDigit=true := by
    obtain ⟨e,he,hdig⟩ := exists_head hne hx
    exact ⟨e,by rw [List.head?_append,he]; rfl,hdig⟩
  have hplain : ∀ e ∈ as++[c]++pointed zs, IsPlain e := by
    intro e he
    unfold pointed at he
    obtain he|he := List.mem_append.mp he
    · exact .inl (hx e he)
    · split at he
      · cases he
      · obtain rfl|he := List.mem_cons.mp he
        · exact .inr rfl
        · exact .inl (hy e (List.mem_append_left _ he))
  have hnum := number_of_ofText hhead hplain hread
  have hpos : (0 : ℚ) ≤ m/10^d := by positivity
  have hsplit : (if negative then ['-'] else [])++(as++[c]++ '.'::(zs++List.replicate n '0')) =
      (if negative then ['-'] else [])++as++[c]++ '.'::(zs++List.replicate n '0') := by simp
  rw [htext,String.toList_ofList,hsplit,htrim]
  cases negative with
  | false =>
    simp only [Bool.false_eq_true,if_false,List.nil_append]
    exact ⟨_,rfl,by simp,⟨_,hhead,hplain,.inl rfl⟩,_,hnum,abs_of_nonneg hpos⟩
  | true =>
    simp only [if_true,List.cons_append,List.nil_append]
    refine ⟨_,rfl,List.cons_ne_nil _ _,⟨_,hhead,hplain,.inr rfl⟩,-(m/10^d),?_,by rw [abs_neg,abs_of_nonneg hpos]⟩
    rw [number_neg hhead hplain,hnum,Option.map_some]

/-- At twelve decimals the number is a multiple of the last of them. -/
theorem exists_twelveDecimals (h : 1/(2*10^12) < |x|) : ∃ m : ℕ, 0 < m ∧ (twelveDecimals x).toList =
    (if (x<0 : Bool) then ['-'] else [])++(toFixed ((m : ℚ)/10^12) 12).toList := by
  have hhalf := abs_le.mp (Double.abs_halfEven_sub_le (|x| * 10^12))
  have hbig : 1/2 < |x| * 10^12 := by
    rw [div_lt_iff₀ (by positivity)] at h
    linarith
  have hpos : (0 : ℚ)<Double.halfEven (|x| * 10^12) := by
    generalize |x| * 10^12=z at hhalf hbig ⊢
    linarith [hhalf.1]
  have hpos' : 0<Double.halfEven (|x| * 10^12) := by exact_mod_cast hpos
  obtain ⟨m,hm⟩ := Int.eq_ofNat_of_zero_le hpos'.le
  refine ⟨m,by omega,?_⟩
  unfold twelveDecimals
  rw [hm,String.toList_append]
  by_cases hx : x<0
  · simp [hx]
  · simp [hx]

theorem round_of_asF64 {y : Js.Num} (h : asF64 y=.fin x) : Double.round x=.fin x := by
  cases y with
  | nan => cases h
  | inf negative => cases h
  | fin q => exact Double.round_of_round h

/-- A double that does not vanish at twelve decimals does not read as zero when it is printed. -/
theorem parseF64_decimalText (hx : Double.round x=.fin x) (h : 1/(2*10^12) < |x|) :
    ∃ v, parseF64 (decimalText (.fin x))=some v ∧ v ≠ .fin 0 := by
  have hx0 : x ≠ 0 := by
    rintro rfl
    norm_num at h
  unfold decimalText
  dsimp only
  rw [if_neg hx0]
  split
  · obtain ⟨j,hj⟩ := Double.exists_den_shortest hx
    obtain ⟨n,hn⟩ := Double.intCast_of_den_dvd (Double.den_dvd_decimalsOf hj)
    obtain ⟨cs,htext,hsigned,hnum⟩ := toFixed_signed hn
    rw [htext,parseF64_signed hsigned,hnum,Option.map_some,round_shortest hx]
    exact ⟨_,rfl,fun h => hx0 (Js.Num.fin.inj h)⟩
  · obtain ⟨m,hm,htext⟩ := exists_twelveDecimals h
    obtain ⟨cs,htrim,hne,hsigned,v,hnum,hv⟩ := trimmed_signed m (d := 12) (by decide) (x<0)
    rw [htext,htrim,if_neg hne,parseF64_signed hsigned,hnum,Option.map_some]
    refine ⟨_,rfl,round_ne_zero ?_⟩
    rw [hv]
    have hm1 : (1 : ℚ) ≤ m := by exact_mod_cast hm
    gcongr

end
end TradeGate.ExecCore
