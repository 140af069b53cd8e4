import TradeGate.Js.Value

/-! Natural numbers in decimal: at the end of a text, and read back. -/
namespace Js

theorem isDigit_of_mem_natText {n : ℕ} {c : Char} (h : c ∈ (toString n).toList) : c.isDigit=true := by
  have h' : c ∈ Nat.toDigits 10 n := by
    simpa using show c ∈ (Nat.repr n).toList from h
  exact Nat.isDigit_of_mem_toDigits (by decide) (by decide) h'

theorem natText_injective {m n : ℕ} (h : toString m=toString n) : m=n := by
  have hl := congrArg String.toList (show Nat.repr m=Nat.repr n from h)
  have hd := congrArg (fun cs => Nat.ofDigitChars 10 cs 0)
    (show Nat.toDigits 10 m=Nat.toDigits 10 n by simpa using hl)
  simpa using hd

/-- Digits at the end of a text can be told from the letter before them. -/
theorem append_digits_inj {xs ys ds es : List Char} {c d : Char} (hc : ¬c.isDigit) (hd : ¬d.isDigit)
    (hds : ∀ x ∈ ds, x.isDigit=true) (hes : ∀ x ∈ es, x.isDigit=true) (h : xs++c::ds=ys++d::es) :
    xs=ys ∧ c=d ∧ ds=es := by
  rcases List.append_eq_append_iff.mp h with ⟨as,hy,ha⟩|⟨as,hx,ha⟩
  · cases as with
    | nil =>
      obtain ⟨hcd,he⟩ := List.cons.inj ha
      exact ⟨by rw [hy,List.append_nil],hcd,he⟩
    | cons a as =>
      obtain ⟨-,rfl⟩ := List.cons.inj ha
      exact absurd (hds d (by simp)) hd
  · cases as with
    | nil =>
      obtain ⟨hcd,he⟩ := List.cons.inj ha
      exact ⟨by rw [hx,List.append_nil],hcd.symm,he.symm⟩
    | cons a as =>
      obtain ⟨-,rfl⟩ := List.cons.inj ha
      exact absurd (hes c (by simp)) hc

/-- A run of digits ends where the text goes on with something else. -/
theorem digits_append {cs rest : List Char} (h : ∀ c ∈ cs, c.isDigit=true)
    (hr : ∀ c ∈ rest.head?, c.isDigit=false) (v k : ℕ) :
    digits (cs++rest) v k=(Nat.ofDigitChars 10 cs v,k+cs.length,rest) := by
  induction cs generalizing v k with
  | nil =>
    cases rest with
    | nil => rfl
    | cons c rest =>
      rw [List.nil_append,digits,digit?,if_neg (by simp [hr c rfl])]
      rfl
  | cons c cs ih =>
    obtain ⟨hc,hcs⟩ := List.forall_mem_cons.mp h
    rw [List.cons_append,digits,digit?,if_pos hc]
    dsimp only
    rw [ih hcs,Nat.ofDigitChars_cons,List.length_cons,Nat.add_right_comm,Nat.add_assoc]

theorem digits_of_isDigit {cs : List Char} (h : ∀ c ∈ cs, c.isDigit=true) (v k : ℕ) :
    digits cs v k=(Nat.ofDigitChars 10 cs v,k+cs.length,[]) := by
  have happ : digits (cs++[]) v k=(Nat.ofDigitChars 10 cs v,k+cs.length,[]) :=
    digits_append h (by simp) v k
  simpa using happ

theorem toNat_of_isDigit {c : Char} (h : c.isDigit=true) : 48 ≤ c.toNat ∧ c.toNat ≤ 57 := by
  have := Char.isDigit_iff_toNat.mp h
  simpa using this

theorem dropWhile_none {cs : List Char} {f : Char → Bool} (h : ∀ c ∈ cs, f c=false) :
    cs.dropWhile f=cs := by
  cases cs with
  | nil => rfl
  | cons c cs => simp [h c List.mem_cons_self]

/-- A text without blanks has none at its ends. -/
theorem trimmed_none {cs : List Char} {f : Char → Bool} (h : ∀ c ∈ cs, f c=false) :
    ((cs.dropWhile f).reverse.dropWhile f).reverse=cs := by
  rw [dropWhile_none h,dropWhile_none fun c hc => h c (List.mem_reverse.mp hc),List.reverse_reverse]

theorem isBlank_of_isDigit {c : Char} (h : c.isDigit=true) : isBlank c=false := by
  unfold isBlank Char.isWhitespace
  simp only [Bool.or_eq_false_iff,decide_eq_false_iff_not]
  refine ⟨⟨⟨?_,?_⟩,?_⟩,?_⟩ <;> rintro rfl <;> cases h

theorem isSpace_of_isDigit {c : Char} (h : c.isDigit=true) : isSpace c=false := by
  obtain ⟨h₁,h₂⟩ := toNat_of_isDigit h
  simp [isSpace]
  omega

theorem natText_toList (n : ℕ) : (toString n).toList=Nat.toDigits 10 n :=
  show (Nat.repr n).toList=_ from Nat.toList_repr

/-- A digit, or a point. -/
def IsPlain (c : Char) : Prop := c.isDigit=true ∨ c = '.'

theorem isBlank_of_plain {c : Char} (h : IsPlain c) : isBlank c=false := by
  obtain h|rfl := h
  · exact isBlank_of_isDigit h
  · decide

theorem isSpace_of_plain {c : Char} (h : IsPlain c) : isSpace c=false := by
  obtain h|rfl := h
  · exact isSpace_of_isDigit h
  · decide

section
variable {cs xs ys : List Char}

/-- What a text that begins with a digit is read as. -/
theorem number_plain (hc : ∃ c ∈ cs.head?, c.isDigit=true) (h : ∀ x ∈ cs, IsPlain x) :
    number (String.ofList cs)=match digits cs 0 0 with
      | (i,n,rest) => match fraction rest with
        | (f,m,rest) => if n+m=0 then none else (exponent rest).map fun e => (i+f/10^m)*(10 : ℚ)^e := by
  obtain ⟨c,hc,hd⟩ := hc
  have htrim : trim cs=cs := trimmed_none fun x hx => isBlank_of_plain (h x hx)
  have hsign : sign cs=(1,cs) := by
    unfold sign
    split
    · cases hc
      cases hd
    · cases hc
      cases hd
    · rfl
  unfold number
  rw [String.toList_ofList,htrim]
  cases cs with
  | nil => cases hc
  | cons c cs => simp only [hsign,Int.cast_one,one_mul]

theorem trim_neg (h : ∀ x ∈ cs, IsPlain x) : trim ('-'::cs) = '-'::cs ∧ strip ('-'::cs) = '-'::cs := by
  constructor
  · refine trimmed_none fun x hx => ?_
    rcases List.mem_cons.mp hx with rfl|hx
    · decide
    · exact isBlank_of_plain (h x hx)
  · refine trimmed_none fun x hx => ?_
    rcases List.mem_cons.mp hx with rfl|hx
    · decide
    · exact isSpace_of_plain (h x hx)

theorem number_neg (hc : ∃ c ∈ cs.head?, c.isDigit=true) (h : ∀ x ∈ cs, IsPlain x) :
    number (String.ofList ('-'::cs))=(number (String.ofList cs)).map fun x => -x := by
  rw [number_plain hc h]
  unfold number
  rw [String.toList_ofList,(trim_neg h).1]
  have hsign : sign ('-'::cs)=(-1,cs) := rfl
  simp only [hsign]
  generalize digits cs 0 0=d
  obtain ⟨i,n,rest⟩ := d
  dsimp only
  generalize fraction rest=f
  obtain ⟨f,m,rest⟩ := f
  dsimp only
  by_cases hz : n+m=0
  · rw [if_pos hz,if_pos hz]
    rfl
  · rw [if_neg hz,if_neg hz,Option.map_map]
    congr 1
    funext e
    rw [Function.comp_apply,Int.cast_neg,Int.cast_one,neg_one_mul,neg_mul]

/-- A text that begins with a digit is read in decimal. -/
theorem Num.ofText_plain (hc : ∃ c ∈ cs.head?, c.isDigit=true) (h : ∀ x ∈ cs, IsPlain x) :
    Num.ofText (String.ofList cs)=(number (String.ofList cs)).elim .nan .fin := by
  have hstrip : strip cs=cs := trimmed_none fun x hx => isSpace_of_plain (h x hx)
  have hradix : radixed cs=none := by
    unfold radixed
    split
    · next x xs =>
      have hx : IsPlain x := h x (by simp)
      rw [if_neg,if_neg,if_neg]
      all_goals rintro (rfl|rfl) <;> rcases hx with hx|hx <;> cases hx
    · rfl
  have hword : ∀ s : String, (∃ d ∈ s.toList.head?, d.isDigit=false) → cs ≠ s.toList := by
    rintro s ⟨d,hd,hn⟩ he
    obtain ⟨c,hc,hdigit⟩ := hc
    rw [← he,Option.mem_def.mp hc] at hd
    cases hd
    cases hdigit.symm.trans hn
  unfold Num.ofText
  simp only [String.toList_ofList,hstrip,hradix]
  rw [if_neg (not_or.mpr ⟨hword _ ⟨'I',rfl,rfl⟩,hword _ ⟨'+',rfl,rfl⟩⟩),if_neg (hword _ ⟨'-',rfl,rfl⟩)]

/-- And so is one that begins with a minus sign and a digit. -/
theorem Num.ofText_neg {q : ℚ} (hc : ∃ c ∈ cs.head?, c.isDigit=true) (h : ∀ x ∈ cs, IsPlain x)
    (hq : Num.ofText (String.ofList cs)=.fin q) : Num.ofText (String.ofList ('-'::cs))=.fin (-q) := by
  have hnum : number (String.ofList cs)=some q := by
    rw [ofText_plain hc h] at hq
    cases hn : number (String.ofList cs) with
    | none =>
      rw [hn] at hq
      cases hq
    | some x =>
      rw [hn] at hq
      exact congrArg some (Num.fin.inj hq)
  have hradix : radixed ('-'::cs)=none := rfl
  have hfirst : ∀ s : String, (∃ d ∈ s.toList.head?, d ≠ '-') → '-'::cs ≠ s.toList := by
    rintro s ⟨d,hd,hn⟩ he
    rw [← he] at hd
    cases hd
    exact hn rfl
  have hminus : '-'::cs ≠ "-Infinity".toList := by
    intro he
    obtain ⟨c,hc,hdigit⟩ := hc
    have hcs : cs="Infinity".toList := (List.cons.inj (show '-'::cs = '-'::"Infinity".toList from he)).2
    rw [hcs] at hc
    cases hc
    cases hdigit
  unfold Num.ofText
  simp only [String.toList_ofList,(trim_neg h).2,hradix]
  rw [if_neg (not_or.mpr ⟨hfirst _ ⟨'I',by decide,by decide⟩,hfirst _ ⟨'+',by decide,by decide⟩⟩),
    if_neg hminus,number_neg hc h,hnum]
  rfl

theorem exists_head (hne : cs ≠ []) (h : ∀ c ∈ cs, c.isDigit=true) : ∃ c ∈ cs.head?, c.isDigit=true := by
  cases cs with
  | nil => exact absurd rfl hne
  | cons c cs => exact ⟨c,rfl,h c List.mem_cons_self⟩

theorem Num.ofText_digits (hne : cs ≠ []) (h : ∀ c ∈ cs, c.isDigit=true) :
    Num.ofText (String.ofList cs)=.fin (Nat.ofDigitChars 10 cs 0) := by
  have hhead := exists_head hne h
  have hplain : ∀ c ∈ cs, IsPlain c := fun c hc => .inl (h c hc)
  rw [ofText_plain hhead hplain,number_plain hhead hplain,digits_of_isDigit h]
  simp [fraction,exponent,hne]

theorem isPlain_point (hx : ∀ c ∈ xs, c.isDigit=true) (hy : ∀ c ∈ ys, c.isDigit=true) :
    ∀ c ∈ xs++ '.'::ys, IsPlain c := by
  intro c hc
  rcases List.mem_append.mp hc with hc|hc
  · exact .inl (hx c hc)
  · rcases List.mem_cons.mp hc with rfl|hc
    · exact .inr rfl
    · exact .inl (hy c hc)

/-- Digits before and after a point. -/
theorem Num.ofText_decimal (hne : xs ≠ []) (hx : ∀ c ∈ xs, c.isDigit=true) (hy : ∀ c ∈ ys, c.isDigit=true) :
    Num.ofText (String.ofList (xs++ '.'::ys))=.fin (Nat.ofDigitChars 10 (xs++ys) 0/10^ys.length) := by
  have hhead : ∃ c ∈ (xs++ '.'::ys).head?, c.isDigit=true := by
    obtain ⟨c,hc,hd⟩ := exists_head hne hx
    exact ⟨c,by rw [List.head?_append,hc]; rfl,hd⟩
  have hplain := isPlain_point hx hy
  have hsum : Nat.ofDigitChars 10 (xs++ys) 0 =
      10^ys.length*Nat.ofDigitChars 10 xs 0+Nat.ofDigitChars 10 ys 0 := by
    rw [Nat.ofDigitChars_append,Nat.ofDigitChars_eq_ofDigitChars_zero]
  rw [ofText_plain hhead hplain,number_plain hhead hplain,digits_append hx (by simp)]
  simp only [fraction,digits_of_isDigit hy,exponent,Option.map_some,zpow_zero,mul_one]
  have hlen : ¬0+xs.length+(0+ys.length)=0 := fun hn =>
    hne (List.length_eq_zero_iff.mp (by omega))
  rw [if_neg hlen,hsum,Nat.zero_add]
  dsimp only [Option.elim]
  congr 1
  push_cast
  field_simp

/-- The text of a natural number is read as the number. -/
theorem Num.ofText_natText (n : ℕ) : Num.ofText (toString n)=.fin n := by
  have hd : ∀ c ∈ (toString n).toList, c.isDigit=true := fun c => isDigit_of_mem_natText
  have hne : (toString n).toList ≠ [] := by
    rw [natText_toList]
    exact Nat.toDigits_ne_nil
  rw [← String.ofList_toList (s := toString n),ofText_digits hne hd,natText_toList,
    Nat.ofDigitChars_ten_toDigits]

end
end Js
