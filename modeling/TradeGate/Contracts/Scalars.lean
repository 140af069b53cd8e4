import TradeGate.Model.Contracts
import TradeGate.Model.Scalars

/-! The checks of execd accept exactly the strings that the patterns of the schema describe. -/
namespace TradeGate.Scalars
open Words
open scoped Computability

variable {s : String} {c : Char} {w a b : List Char}

theorem isLowerHex_eq : isLowerHex=hexClass := by
  funext c
  rfl

theorem isDigit_eq : Char.isDigit=range '0' '9' := by
  funext c
  simp [Char.isDigit,range,Char.le_def]

theorem isUpperOrDigit_eq : isUpperOrDigit=symbolClass := by
  funext c
  simp [isUpperOrDigit,symbolClass,Char.isUpper,Char.isDigit,range,Char.le_def]

theorem isIdChar_eq : isIdChar=idClass := by
  funext c
  rw [Bool.eq_iff_iff]
  simp only [isIdChar,idClass,Char.isAlphanum,Char.isAlpha,Char.isUpper,Char.isLower,Char.isDigit,range,
    Char.le_def,Bool.or_eq_true,Bool.and_eq_true,decide_eq_true_eq]
  tauto

/-! Letters of one byte. -/

/-- Every letter of the class takes one byte. -/
def Ascii (p : Char → Bool) : Prop := ∀ c, p c=true → c.utf8Size=1

theorem ascii_range {x y : Char} (h : y.val ≤ 127) : Ascii (range x y) := by
  intro c hc
  rw [range,Bool.and_eq_true,decide_eq_true_eq,decide_eq_true_eq] at hc
  exact Char.utf8Size_eq_one_iff.mpr (UInt32.le_trans hc.2 h)

theorem ascii_hexClass : Ascii hexClass := by
  intro c hc
  rcases Bool.or_eq_true_iff.mp hc with hc | hc
  · exact ascii_range (by decide) c hc
  · exact ascii_range (by decide) c hc

theorem ascii_symbolClass : Ascii symbolClass := by
  intro c hc
  rcases Bool.or_eq_true_iff.mp hc with hc | hc
  · exact ascii_range (by decide) c hc
  · exact ascii_range (by decide) c hc

theorem ascii_idClass : Ascii idClass := by
  intro c hc
  simp only [idClass,Bool.or_eq_true,decide_eq_true_eq] at hc
  rcases hc with ((((((rfl | hc) | rfl) | rfl) | hc) | hc) | rfl) | rfl
  · rfl
  · exact ascii_range (by decide) c hc
  · rfl
  · rfl
  · exact ascii_range (by decide) c hc
  · exact ascii_range (by decide) c hc
  · rfl
  · rfl

theorem byteLen_eq {p : Char → Bool} (hp : Ascii p) (h : ∀ c ∈ s.toList, p c=true) : byteLen s=s.toList.length := by
  unfold byteLen
  rw [List.map_congr_left fun c hc => hp c (h c hc)]
  simp

/-- A length in bytes is a length in letters where the letters are checked too. -/
theorem bytes_and_all {p : Char → Bool} (hp : Ascii p) (P : ℕ → Prop) :
    P (byteLen s) ∧ s.toList.all p=true ↔ P s.toList.length ∧ ∀ c ∈ s.toList, p c=true := by
  rw [List.all_eq_true]
  refine and_congr_left fun h => ?_
  rw [byteLen_eq hp h]

/-! UUIDs. -/

/-- The classes of a UUID's positions. -/
def uuidClasses : List (Char → Bool) := (List.range 36).map uuidChar

theorem uuid_pattern : Kind.pattern .uuid=(uuidClasses.map one).prod := by
  let dash : Char → Bool := fun c => c= '-'
  have h : uuidClasses=List.replicate 8 hexClass++[dash]++List.replicate 4 hexClass++[dash]++[range '1' '8']++
      List.replicate 3 hexClass++[dash]++[fun c => c= '8' || c= '9' || c= 'a' || c= 'b']++
      List.replicate 3 hexClass++[dash]++List.replicate 12 hexClass := rfl
  rw [h]
  simp only [List.map_append,List.prod_append,← one_pow_eq_prod,List.map_cons,List.map_nil,List.prod_cons,
    List.prod_nil,mul_one]
  rfl

theorem validUuid_iff : validUuid s=true ↔ s.toList ∈ Kind.pattern .uuid := by
  rw [uuid_pattern,mem_prod,List.forall₂_iff_get,validUuid,Bool.and_eq_true,decide_eq_true_eq,List.all_eq_true]
  have hlen : uuidClasses.length=36 := rfl
  constructor
  · rintro ⟨hs,h⟩
    refine ⟨hlen.trans hs.symm,?_⟩
    intro i h₁ h₂
    have := h (s.toList.get ⟨i,h₂⟩,i) (List.mk_mem_zipIdx_iff_getElem?.mpr (by simp [h₂]))
    simpa [uuidClasses] using this
  · rintro ⟨hs,h⟩
    refine ⟨hs.symm.trans hlen,?_⟩
    rintro ⟨c,i⟩ hi
    obtain ⟨hlt,hc⟩ := List.getElem?_eq_some_iff.mp (List.mk_mem_zipIdx_iff_getElem?.mp hi)
    have := h i (by omega) hlt
    subst hc
    simpa [uuidClasses] using this

/-! Decimals. -/

theorem digit_ne_dot (h : range '0' '9' c=true) : c ≠ '.' := by
  rintro rfl
  revert h
  decide

theorem split_dot (ha : ∀ c ∈ a, c ≠ '.') (hb : b=[] ∨ ∃ f, b= '.'::f) :
    (a++b).takeWhile (· ≠ '.')=a ∧ (a++b).dropWhile (· ≠ '.')=b := by
  induction a with
  | nil =>
    rcases hb with rfl | ⟨f,rfl⟩
    · simp
    · simp
  | cons c a ih =>
    obtain ⟨hc,ha⟩ := List.forall_mem_cons.mp ha
    obtain ⟨h₁,h₂⟩ := ih ha
    rw [List.cons_append,List.takeWhile_cons,List.dropWhile_cons,h₁,h₂]
    simp [hc]

/-- Digits without a leading zero. -/
theorem mem_intPart : a ∈ lit '0'+one (range '1' '9')*(one (range '0' '9'))∗ ↔
    a ≠ [] ∧ (∀ c ∈ a, range '0' '9' c=true) ∧ ¬(1<a.length ∧ a.head?=some '0') := by
  rw [Language.mem_add,mem_one_mul]
  constructor
  · rintro (⟨c,hc,rfl⟩ | ⟨c,cs,hc,hcs,rfl⟩)
    · have hc : c= '0' := of_decide_eq_true hc
      subst hc
      exact ⟨by simp,List.forall_mem_singleton.mpr rfl,by simp⟩
    · refine ⟨by simp,List.forall_mem_cons.mpr ⟨?_,mem_one_star.mp hcs⟩,?_⟩
      · rw [range,Bool.and_eq_true,decide_eq_true_eq,decide_eq_true_eq] at hc ⊢
        have hle : 49 ≤ c.toNat := hc.1
        exact ⟨show 48 ≤ c.toNat by omega,hc.2⟩
      · rintro ⟨-,h⟩
        cases h
        revert hc
        decide
  · rintro ⟨hne,hdigits,hzero⟩
    cases a with
    | nil => exact absurd rfl hne
    | cons c cs =>
      obtain ⟨hc,hcs⟩ := List.forall_mem_cons.mp hdigits
      by_cases h : c= '0'
      · subst h
        left
        cases cs with
        | nil => exact ⟨'0',by simp,rfl⟩
        | cons d cs => exact absurd ⟨by simp,rfl⟩ hzero
      · right
        refine ⟨c,cs,?_,mem_one_star.mpr hcs,rfl⟩
        rw [range,Bool.and_eq_true,decide_eq_true_eq,decide_eq_true_eq] at hc ⊢
        refine ⟨?_,hc.2⟩
        have hne : c.toNat ≠ 48 := fun he => h (Char.toNat_inj.mp he)
        have hle : 48 ≤ c.toNat := hc.1
        show 49 ≤ c.toNat
        omega

theorem mem_fracPart : b ∈ optional (lit '.'*many1 (one (range '0' '9'))) ↔
    b=[] ∨ ∃ f, b= '.'::f ∧ f ≠ [] ∧ ∀ c ∈ f, range '0' '9' c=true := by
  rw [mem_optional]
  refine or_congr_right ?_
  unfold lit
  rw [mem_one_mul]
  constructor
  · rintro ⟨c,f,hc,hf,rfl⟩
    have hc : c= '.' := of_decide_eq_true hc
    subst hc
    exact ⟨f,rfl,mem_many1.mp hf⟩
  · rintro ⟨f,rfl,hf⟩
    exact ⟨'.',f,by simp,mem_many1.mpr hf,rfl⟩

theorem validMagnitude_iff : validMagnitude w=true ↔ w ∈ magnitudePattern := by
  have hvalid : validMagnitude w=true ↔
      (w.takeWhile (· ≠ '.') ≠ [] ∧ (∀ c ∈ w.takeWhile (· ≠ '.'), range '0' '9' c=true) ∧
        ¬(1<(w.takeWhile (· ≠ '.')).length ∧ (w.takeWhile (· ≠ '.')).head?=some '0')) ∧
      ∀ f ∈ (w.dropWhile (· ≠ '.')).tail?, f ≠ [] ∧ ∀ c ∈ f, range '0' '9' c=true := by
    unfold validMagnitude
    rw [isDigit_eq]
    generalize w.takeWhile (· ≠ '.')=a
    generalize (w.dropWhile (· ≠ '.')).tail?=f
    by_cases hzero : 1<a.length ∧ a.head?=some '0'
    · simp [hzero]
    · have hor : a.length ≤ 1 ∨ ¬a.head?=some '0' := by
        rwa [not_and_or,not_lt] at hzero
      rw [not_and] at hzero
      cases f <;> simp +contextual [hzero,hor,and_assoc]
  rw [hvalid,magnitudePattern,Language.mem_mul]
  constructor
  · rintro ⟨hint,hfrac⟩
    refine ⟨w.takeWhile (· ≠ '.'),mem_intPart.mpr hint,w.dropWhile (· ≠ '.'),mem_fracPart.mpr ?_,
      List.takeWhile_append_dropWhile⟩
    cases hdrop : w.dropWhile (· ≠ '.') with
    | nil => exact .inl rfl
    | cons d f =>
      rw [hdrop] at hfrac
      have hd := List.head?_dropWhile_not (fun c : Char => decide (c ≠ '.')) w
      rw [hdrop] at hd
      have hd : d= '.' := by simpa using hd
      exact .inr ⟨f,by rw [hd],hfrac f rfl⟩
  · rintro ⟨a,ha,b,hb,rfl⟩
    have ha := mem_intPart.mp ha
    have hb := mem_fracPart.mp hb
    obtain ⟨htake,hdrop⟩ := split_dot (a := a) (b := b) (fun c hc => digit_ne_dot (ha.2.1 c hc))
      (hb.imp_right fun ⟨f,h,_⟩ => ⟨f,h⟩)
    rw [htake,hdrop]
    refine ⟨ha,?_⟩
    rcases hb with rfl | ⟨f,rfl,hf⟩
    · intro f hf
      cases hf
    · intro f hf'
      cases hf'
      exact hf

theorem not_magnitude_minus : '-'::w ∉ magnitudePattern := by
  intro h
  obtain ⟨a,ha,b,hb,heq⟩ := Language.mem_mul.mp h
  obtain ⟨hne,hdigits,-⟩ := mem_intPart.mp ha
  cases a with
  | nil => exact hne rfl
  | cons c cs =>
    cases heq
    have := hdigits '-' List.mem_cons_self
    revert this
    decide

theorem validDecimal_iff (allowNegative : Bool) : validDecimal s allowNegative=true ↔
    s.toList ∈ magnitudePattern ∨ allowNegative=true ∧ s.toList ∈ lit '-'*magnitudePattern := by
  unfold validDecimal lit
  rw [mem_one_mul]
  split
  next rest hs =>
    have hmin : (∃ c cs, decide (c= '-')=true ∧ cs ∈ magnitudePattern ∧ s.toList=c::cs) ↔ rest ∈ magnitudePattern := by
      constructor
      · rintro ⟨c,cs,-,hcs,heq⟩
        rw [hs] at heq
        cases heq
        exact hcs
      · exact fun h => ⟨'-',rest,by simp,h,hs⟩
    rw [hmin,hs,or_iff_right not_magnitude_minus,← validMagnitude_iff]
    cases allowNegative <;> simp
  next hs =>
    rw [validMagnitude_iff,or_iff_left]
    rintro ⟨-,c,cs,hc,-,heq⟩
    have hc : c= '-' := of_decide_eq_true hc
    exact hs cs (hc ▸ heq)

/-- The decimals of requests are those without a sign. -/
theorem execd_validDecimal (s : String) : Execd.validDecimal s=validDecimal s false := by
  have hmagnitude : ∀ w : List Char, validMagnitude w=(w.takeWhile (· ≠ '.') ≠ [] &&
      (w.takeWhile (· ≠ '.')).all Char.isDigit && ((w.takeWhile (· ≠ '.')).length ≤ 1 ||
        (w.takeWhile (· ≠ '.')).head? ≠ some '0') && (w.dropWhile (· ≠ '.')=[] ||
          ((w.dropWhile (· ≠ '.')).tail ≠ [] && (w.dropWhile (· ≠ '.')).tail.all Char.isDigit))) := by
    intro w
    unfold validMagnitude
    generalize w.takeWhile (· ≠ '.')=i
    cases w.dropWhile (· ≠ '.') with
    | nil => cases i <;> grind
    | cons c f => cases i <;> cases f <;> grind
  unfold Execd.validDecimal validDecimal
  dsimp only
  rw [← hmagnitude]
  split
  next rest hs =>
    have hminus : ¬validMagnitude s.toList=true := by
      rw [validMagnitude_iff,hs]
      exact not_magnitude_minus
    simpa using hminus
  next => rfl

/-! The digits that client order ids take from a UUID. -/

theorem hex_ne_dash (h : hexClass c=true) : c ≠ '-' := by
  rintro rfl
  revert h
  decide

theorem filter_hex (h : ∀ c ∈ a, hexClass c=true) : a.filter (fun c => c ≠ '-')=a :=
  List.filter_eq_self.mpr fun c hc => decide_eq_true (hex_ne_dash (h c hc))

theorem short12_mem (u : Scalar .uuid) : u.short12.toList ∈ one hexClass^12 := by
  have h := validUuid_iff.mp u.valid
  unfold Kind.pattern lit at h
  simp only [mul_assoc] at h
  obtain ⟨a,ha,r,hr,hu⟩ := Language.mem_mul.mp h
  obtain ⟨c,s,hc,hs,rfl⟩ := mem_one_mul.mp hr
  obtain ⟨b,hb,t,-,rfl⟩ := Language.mem_mul.mp hs
  have hc : c= '-' := of_decide_eq_true hc
  obtain ⟨hlena,ha⟩ := mem_one_pow.mp ha
  obtain ⟨hlenb,hb⟩ := mem_one_pow.mp hb
  have htext : u.short12.toList=a++b := by
    unfold Scalar.short12
    rw [String.toList_ofList,← hu,List.filter_append,List.filter_cons_of_neg (by simp [hc]),List.filter_append,
      filter_hex ha,filter_hex hb,← List.append_assoc]
    exact List.take_left' (by rw [List.length_append,hlena,hlenb])
  rw [htext,mem_one_pow,List.length_append,hlena,hlenb]
  refine ⟨rfl,?_⟩
  intro c hc
  rcases List.mem_append.mp hc with hc | hc
  · exact ha c hc
  · exact hb c hc

/-- The check of each kind accepts exactly what the pattern of the schema describes, and the digits that a
client order id takes from a UUID are twelve. -/
theorem scalars_exact (k : Kind) (s : String) (u : Scalar .uuid) :
    (k.isValid s=true ↔ s.toList ∈ k.pattern) ∧ u.short12.toList ∈ one hexClass^12 := by
  refine ⟨?_,short12_mem u⟩
  cases k with
  | uuid => exact validUuid_iff
  | decimal =>
    change validDecimal s true=true ↔ s.toList ∈ optional (lit '-')*magnitudePattern
    rw [validDecimal_iff,mem_optional_mul]
    simp
  | unsignedDecimal =>
    change validDecimal s false=true ↔ s.toList ∈ magnitudePattern
    rw [validDecimal_iff]
    simp
  | hash256 =>
    change validHash256 s=true ↔ s.toList ∈ one hexClass^64
    rw [validHash256,isLowerHex_eq,Bool.and_eq_true,decide_eq_true_eq,bytes_and_all ascii_hexClass (· = 64),mem_one_pow]
  | symbol =>
    change validSymbol s=true ↔ s.toList ∈ between 2 18 (one symbolClass)
    rw [validSymbol,isUpperOrDigit_eq,Bool.and_eq_true,Bool.and_eq_true,decide_eq_true_eq,decide_eq_true_eq,
      bytes_and_all ascii_symbolClass (fun n => 2 ≤ n ∧ n ≤ 20),mem_between]
  | asset =>
    change validAsset s=true ↔ s.toList ∈ between 1 11 (one symbolClass)
    rw [validAsset,isUpperOrDigit_eq,Bool.and_eq_true,Bool.and_eq_true,decide_eq_true_eq,decide_eq_true_eq,
      bytes_and_all ascii_symbolClass (fun n => 1 ≤ n ∧ n ≤ 12),mem_between]
  | clientOrderId =>
    change validClientOrderId s=true ↔ s.toList ∈ between 1 35 (one idClass)
    rw [validClientOrderId,isIdChar_eq,Bool.and_eq_true,Bool.and_eq_true,decide_eq_true_eq,decide_eq_true_eq,
      bytes_and_all ascii_idClass (fun n => 1 ≤ n ∧ n ≤ 36),mem_between]

example : Kind.isValid .uuid "0f8fad5b-d9cb-469f-a165-70867728950e"=true ∧
    Kind.isValid .uuid "0f8fad5b-d9cb-069f-a165-70867728950e"=false ∧ Kind.isValid .decimal "-0"=true ∧
    Kind.isValid .decimal "01"=false := by decide +kernel

end TradeGate.Scalars
