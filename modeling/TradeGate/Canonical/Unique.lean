import Mathlib.Data.Set.Function
import TradeGate.Canonical.Same

/-! Execd's canonical JSON is one text for all values that are alike, and another text for any other
value; reading it and printing it again changes nothing. -/
namespace TradeGate.Canonical
open Js TradeGate.Canonical.Tree

/-! The same tree over other numbers. -/
namespace Tree

variable {ν μ : Type}

mutual

theorem map_id : ∀ t : Tree ν, t.map id=t
  | null => by rw [map]
  | bool b => by rw [map]
  | num x => by rw [map,id]
  | str s => by rw [map]
  | arr xs => by rw [map,mapAll_id xs]
  | obj ms => by rw [map,mapMembers_id ms]

theorem mapAll_id : ∀ xs : List (Tree ν), mapAll id xs=xs
  | [] => by rw [mapAll]
  | x::xs => by rw [mapAll,map_id x,mapAll_id xs]

theorem mapMembers_id : ∀ ms : List (String × Tree ν), mapMembers id ms=ms
  | [] => by rw [mapMembers]
  | (k,x)::ms => by rw [mapMembers,map_id x,mapMembers_id ms]

end

mutual

theorem numbers_map (f : ν → μ) : ∀ t : Tree ν, (t.map f).numbers=t.numbers.map f
  | null => by simp [map,numbers]
  | bool b => by simp [map,numbers]
  | num x => by simp [map,numbers]
  | str s => by simp [map,numbers]
  | arr xs => by rw [map,numbers,numbers,numbersAll_map f xs]
  | obj ms => by rw [map,numbers,numbers,numbersMembers_map f ms]

theorem numbersAll_map (f : ν → μ) : ∀ xs : List (Tree ν), numbersAll (mapAll f xs)=(numbersAll xs).map f
  | [] => by simp [mapAll,numbersAll]
  | x::xs => by
    rw [mapAll,numbersAll,numbersAll,numbers_map f x,numbersAll_map f xs,List.map_append]

theorem numbersMembers_map (f : ν → μ) : ∀ ms : List (String × Tree ν),
    numbersMembers (mapMembers f ms)=(numbersMembers ms).map f
  | [] => by simp [mapMembers,numbersMembers]
  | (k,x)::ms => by
    rw [mapMembers,numbersMembers,numbersMembers,numbers_map f x,numbersMembers_map f ms,
      List.map_append]

end

mutual

theorem map_map {κ : Type} (f : ν → μ) (g : μ → κ) : ∀ t : Tree ν, (t.map f).map g=t.map (g ∘ f)
  | null => by rw [map,map,map]
  | bool b => by rw [map,map,map]
  | num x => by rw [map,map,map,Function.comp_apply]
  | str s => by rw [map,map,map]
  | arr xs => by rw [map,map,map,mapAll_map f g xs]
  | obj ms => by rw [map,map,map,mapMembers_map f g ms]

theorem mapAll_map {κ : Type} (f : ν → μ) (g : μ → κ) :
    ∀ xs : List (Tree ν), mapAll g (mapAll f xs)=mapAll (g ∘ f) xs
  | [] => by rw [mapAll,mapAll,mapAll]
  | x::xs => by rw [mapAll,mapAll,mapAll,map_map f g x,mapAll_map f g xs]

theorem mapMembers_map {κ : Type} (f : ν → μ) (g : μ → κ) :
    ∀ ms : List (String × Tree ν), mapMembers g (mapMembers f ms)=mapMembers (g ∘ f) ms
  | [] => by rw [mapMembers,mapMembers,mapMembers]
  | (k,x)::ms => by rw [mapMembers,mapMembers,mapMembers,map_map f g x,mapMembers_map f g ms]

end

theorem map_congr {f g : ν → μ} {t : Tree ν} (h : ∀ x ∈ t.numbers, f x=g x) : t.map f=t.map g := by
  apply Option.some.inj
  rw [← mapNumbers_some,← mapNumbers_some]
  exact mapNumbers_congr t fun x hx => congrArg some (h x hx)

mutual

theorem distinct_map (f : ν → μ) : ∀ t : Tree ν, (t.map f).Distinct ↔ t.Distinct
  | null => by simp [map,Distinct]
  | bool b => by simp [map,Distinct]
  | num x => by simp [map,Distinct]
  | str s => by simp [map,Distinct]
  | arr xs => by rw [map,Distinct,Distinct,distinctAll_map f xs]
  | obj ms => by
    rw [map,Distinct,Distinct,distinctMembers_map f ms,mapMembers_eq,List.map_map]
    rfl

theorem distinctAll_map (f : ν → μ) : ∀ xs : List (Tree ν), DistinctAll (mapAll f xs) ↔ DistinctAll xs
  | [] => by rw [mapAll,DistinctAll,DistinctAll]
  | x::xs => by rw [mapAll,DistinctAll,DistinctAll,distinct_map f x,distinctAll_map f xs]

theorem distinctMembers_map (f : ν → μ) : ∀ ms : List (String × Tree ν),
    DistinctMembers (mapMembers f ms) ↔ DistinctMembers ms
  | [] => by rw [mapMembers,DistinctMembers,DistinctMembers]
  | (k,x)::ms => by
    rw [mapMembers,DistinctMembers,DistinctMembers,distinct_map f x,distinctMembers_map f ms]

end

theorem mapNumbers_of_eq {f : ν → Option μ} {g : ν → μ} {t : Tree ν}
    (h : ∀ x ∈ t.numbers, f x=some (g x)) : t.mapNumbers f=some (t.map g) := by
  rw [mapNumbers_congr t h,mapNumbers_some]

/-- A tree is told from its image where each of its numbers is. -/
theorem map_inj [Nonempty ν] {f : ν → μ} {S : Set ν} (hf : Set.InjOn f S) {t u : Tree ν}
    (ht : ∀ x ∈ t.numbers, x ∈ S) (hu : ∀ x ∈ u.numbers, x ∈ S) (h : t.map f=u.map f) : t=u := by
  have hback : ∀ {t : Tree ν}, (∀ x ∈ t.numbers, x ∈ S) →
      (t.map f).mapNumbers (fun y => some (Function.invFunOn f S y))=some t := by
    intro t ht
    have hbind := mapNumbers_bind (fun x => some (f x)) (fun y => some (Function.invFunOn f S y)) t
    rw [mapNumbers_some,Option.bind_some] at hbind
    rw [hbind]
    apply (mapNumbers_of_eq (g := id) fun x hx => ?_).trans (by rw [map_id])
    exact congrArg some (hf.leftInvOn_invFunOn (ht x hx))
  apply Option.some.inj
  rw [← hback ht,h,hback hu]

theorem arranged_map (f : ν → μ) (t : Tree ν) : (t.map f).arranged=t.arranged.map f :=
  (arrange_map (map_sortBy codePoints f) t).symm

end Tree

/-! Integers as they are written. -/
namespace Numeral

/-- The numeral of an integer. -/
def ofInt (i : ℤ) : Numeral := { negative := i<0, whole := i.natAbs }

theorem int_ofInt (i : ℤ) : (ofInt i).int=i := by
  unfold ofInt int
  by_cases hi : i<0
  · simp only [hi,decide_true,if_true]
    omega
  · simp only [hi,decide_false,Bool.false_eq_true,if_false]
    omega

theorem text_ofInt (i : ℤ) : (ofInt i).text=toString i := by
  cases i with
  | ofNat n =>
    have hneg : ¬(Int.ofNat n<0) := by simp
    simp only [text,ofInt,hneg,decide_false,Bool.false_eq_true,if_false,String.append_empty,
      String.empty_append]
    rfl
  | negSucc n =>
    have hneg : Int.negSucc n<0 := Int.negSucc_lt_zero n
    simp only [text,ofInt,hneg,decide_true,if_true,String.append_empty]
    rfl

/-- The characters of a numeral, by parts. -/
theorem text_toList (l : Numeral) : l.text.toList =
    (if l.negative then ['-'] else [])++(toString l.whole).toList++
      (l.fraction.elim [] fun ds => '.'::ds.map fun d => Nat.digitChar d.val)++
        l.exponent.elim [] fun e => 'e'::(toString e).toList := by
  obtain ⟨neg,n,fr,ex⟩ := l
  unfold text
  cases neg <;> cases fr <;> cases ex <;> simp

theorem numberChar_of_mem_intText {i : ℤ} {c : Char} (h : c ∈ (toString i).toList) :
    c.isDigit=true ∨ c = '-' := by
  cases i with
  | ofNat n => exact .inl (isDigit_of_mem_natText h)
  | negSucc n =>
    have htext : toString (Int.negSucc n)="-" ++ toString (n+1) := rfl
    rw [htext,String.toList_append] at h
    rcases List.mem_append.mp h with h|h
    · exact .inr (by simpa using h)
    · exact .inl (isDigit_of_mem_natText h)

/-- A numeral with the text of an integer is that of the integer. -/
theorem eq_ofInt {l : Numeral} {i : ℤ} (h : l.text=toString i) : l=ofInt i := by
  have hchar : ∀ c ∈ l.text.toList, c.isDigit=true ∨ c = '-' := by
    rw [h]
    exact fun c => numberChar_of_mem_intText
  rw [text_toList] at hchar
  obtain ⟨neg,n,fr,ex⟩ := l
  -- a fraction or an exponent would show
  cases fr with
  | some ds => simpa using hchar '.' (by simp)
  | none =>
    cases ex with
    | some e => simpa using hchar 'e' (by simp)
    | none =>
      rw [← text_ofInt] at h
      have h' := congrArg String.toList h
      rw [text_toList,text_toList] at h'
      simp only [ofInt,Option.elim_none,List.append_nil] at h' ⊢
      have hdigit : ∀ {n : ℕ} {cs : List Char}, (toString n).toList ≠ '-'::cs := by
        intro n cs hn
        have hd := isDigit_of_mem_natText (n := n) (c := '-') (by rw [hn]; exact List.mem_cons_self)
        revert hd
        decide
      cases neg <;> by_cases hi : i<0 <;>
        simp only [hi,decide_true,decide_false,Bool.false_eq_true,if_false,if_true,List.nil_append,
          List.cons_append] at h' ⊢
      · exact absurd h' hdigit
      · rw [natText_injective (String.toList_injective h')]
      · rw [natText_injective (String.toList_injective (List.cons.inj h').2)]
      · exact absurd h'.symm hdigit

theorem numeric_text (l : Numeral) : Numeric l.text := by
  have hint : ∀ (i : ℤ), ∀ c ∈ (toString i).toList, numberChar c=true := by
    intro i c hc
    rcases numberChar_of_mem_intText hc with hd|rfl
    · rw [numberChar,hd]
      rfl
    · rfl
  have hdigit : ∀ d : Fin 10, numberChar (Nat.digitChar d.val)=true := by decide
  obtain ⟨neg,n,fr,ex⟩ := l
  apply numeric_of_chars
  · rw [text_toList]
    simp
  · intro c hc
    rw [text_toList] at hc
    simp only [List.mem_append] at hc
    obtain ((hc|hc)|hc)|hc := hc
    · cases neg
      · cases hc
      · rw [if_pos rfl,List.mem_singleton] at hc
        subst hc
        rfl
    · exact numberChar_of_mem_natText hc
    · cases fr with
      | none => cases hc
      | some ds =>
        obtain rfl|hc := List.mem_cons.mp hc
        · rfl
        · obtain ⟨d,-,rfl⟩ := List.mem_map.mp hc
          exact hdigit d
    · cases ex with
      | none => cases hc
      | some e =>
        obtain rfl|hc := List.mem_cons.mp hc
        · rfl
        · exact hint e c hc

end Numeral

namespace Execd

/-- The value of a number that is not a float. -/
def Number.int : Number → ℤ
  | posInt n => n
  | negInt i => i
  | float _ => 0

/-- The integers of the two types. -/
def integers : Set Number := {x | x.Valid ∧ (check x).isSome}

theorem Number.text_eq {x : Number} (h : (check x).isSome) : x.text=toString x.int := by
  cases x with
  | posInt n => rfl
  | negInt i => rfl
  | float q => cases h

theorem int_injOn : Set.InjOn Number.int integers := by
  rintro x ⟨hx,hcx⟩ y ⟨hy,hcy⟩ h
  unfold Number.Valid at hx hy
  cases x <;> cases y <;> simp only [Number.int] at h hx hy
  case posInt.posInt => rw [Nat.cast_injective h]
  case negInt.negInt => rw [h]
  case posInt.negInt | negInt.posInt => omega
  all_goals first | cases hcx; done | cases hcy

theorem text_injOn : Set.InjOn Number.text integers := by
  intro x hx y hy h
  apply int_injOn hx hy
  rw [Number.text_eq hx.2,Number.text_eq hy.2,← Numeral.text_ofInt] at h
  have hof := Numeral.eq_ofInt h
  rw [← Numeral.int_ofInt x.int,hof,Numeral.int_ofInt]

/-- An integer is read from its text as it was. -/
theorem numberText_ofInt {x : Number} (h : x ∈ integers) :
    numberText (Numeral.ofInt x.int)=some x.text := by
  have hfits : (Numeral.ofInt x.int).Fits := by
    refine ⟨⟨rfl,rfl⟩,?_⟩
    obtain ⟨hx,hc⟩ := h
    unfold Number.Valid at hx
    cases x with
    | posInt n =>
      simp only [Numeral.ofInt,Number.int] at hx ⊢
      left
      constructor
      · rw [Bool.not_eq_true]
        exact decide_eq_false (by omega)
      · omega
    | negInt i =>
      simp only [Numeral.ofInt,Number.int] at hx ⊢
      right
      refine ⟨by simp [hx.2],?_,?_⟩ <;> omega
    | float q => cases hc
  rw [numberText_eq,if_pos hfits,Numeral.int_ofInt,Number.text_eq h.2]

/-- The canonical text by the texts of the numbers. -/
theorem canonicalJson_text (j : Json) :
    canonicalJson j=(j.tree.mapNumbers numberText).map fun t => t.arranged.text id := by
  have htext : numberText=fun l => (read l).map Number.text := rfl
  rw [canonicalJson_eq,htext,mapNumbers_text,Option.map_map]
  congr 1
  funext t
  rw [Function.comp_apply,arranged_map,text_map]
  rfl

theorem check_eq_some {x : Number} (h : (check x).isSome) : check x=some (id x) := by
  cases x with
  | posInt n => rfl
  | negInt i => rfl
  | float q => cases h

namespace Value
variable {v w : Value} {a b : String}

/-- Canonical JSON is the text of the arranged value, if all its numbers are integers. -/
theorem canonicalJson_eq_some : v.canonicalJson=some a ↔
    (∀ x ∈ v.tree.numbers, x ∈ integers) ∧ v.tree.arranged.text Number.text=a := by
  have horder : (sortBy utf8 : List (String × Tree Number) → _)=sortBy codePoints :=
    funext sortBy_utf8
  unfold canonicalJson
  rw [strip_eq strips,horder]
  by_cases h : ∀ x ∈ v.tree.numbers, (check x).isSome
  · rw [mapNumbers_of_eq fun x hx => check_eq_some (h x hx),map_id,Option.map_some,Option.map_some,
      Option.some_inj]
    exact ⟨fun ha => ⟨fun x hx => ⟨v.valid x hx,h x hx⟩,ha⟩,fun ha => ha.2⟩
  · have hnone : v.tree.mapNumbers check=none := by
      rw [← Option.not_isSome_iff_eq_none,isSome_mapNumbers]
      exact h
    rw [hnone]
    constructor
    · intro ha
      cases ha
    · exact fun ha => absurd (fun x hx => (ha.1 x hx).2) h

/-- The canonical texts of two values are equal just if the values are alike. -/
theorem canonicalJson_eq_iff (hv : v.canonicalJson=some a) (hw : w.canonicalJson=some b) :
    a=b ↔ Same v.tree w.tree := by
  obtain ⟨hnv,rfl⟩ := canonicalJson_eq_some.mp hv
  obtain ⟨hnw,rfl⟩ := canonicalJson_eq_some.mp hw
  rw [text_eq_iff numeric_number numeric_number,same_iff v.distinct w.distinct]
  constructor
  · have hne : Nonempty Number := ⟨.posInt 0⟩
    apply map_inj text_injOn
    · exact fun x hx => hnv x ((mem_numbers_arranged v.distinct).mp hx)
    · exact fun x hx => hnw x ((mem_numbers_arranged w.distinct).mp hx)
  · exact congrArg _

/-- Values that are alike have a canonical text both or neither. -/
theorem canonicalJson_of_same (h : Same v.tree w.tree) : v.canonicalJson=w.canonicalJson := by
  have hsome : ∀ {v w : Value} {a}, Same v.tree w.tree → v.canonicalJson=some a →
      w.canonicalJson=some a := by
    intro v w a h hv
    obtain ⟨hn,ha⟩ := canonicalJson_eq_some.mp hv
    refine canonicalJson_eq_some.mpr ⟨fun x hx => hn x (h.agrees.numbers.mem_iff.mpr hx),?_⟩
    rw [← (same_iff v.distinct w.distinct).mp h,ha]
  cases hv : v.canonicalJson with
  | some a => rw [hsome h hv]
  | none =>
    cases hw : w.canonicalJson with
    | none => rfl
    | some b =>
      rw [hsome h.symm hw] at hv
      cases hv

/-- The value that the canonical text is read as. -/
theorem exists_json (h : v.canonicalJson=some a) : ∃ j : Json, j.text=a := by
  obtain ⟨hn,rfl⟩ := canonicalJson_eq_some.mp h
  refine ⟨⟨v.tree.arranged.map fun x => Numeral.ofInt x.int,?_⟩,?_⟩
  · exact (distinct_map _ _).mpr (distinct_arranged v.distinct)
  · unfold Json.text
    rw [text_eq_iff Numeral.numeric_text numeric_number,map_map]
    apply Tree.map_congr
    intro x hx
    have hint := hn x ((mem_numbers_arranged v.distinct).mp hx)
    rw [Function.comp_apply,Numeral.text_ofInt,Number.text_eq hint.2]

/-- Whatever reads as the canonical text has it as its own canonical text. -/
theorem canonicalJson_reread (h : v.canonicalJson=some a) {j : Json} (hj : j.text=a) :
    Execd.canonicalJson j=some a := by
  obtain ⟨hn,rfl⟩ := canonicalJson_eq_some.mp h
  unfold Json.text at hj
  rw [text_eq_iff Numeral.numeric_text numeric_number] at hj
  -- each numeral has the text of an integer
  have hread : ∀ l ∈ j.tree.numbers, numberText l=some l.text := by
    intro l hl
    have hmem := List.mem_map_of_mem (f := Numeral.text) hl
    rw [← numbers_map,hj,numbers_map] at hmem
    obtain ⟨x,hx,hxl⟩ := List.mem_map.mp hmem
    have hint := hn x ((mem_numbers_arranged v.distinct).mp hx)
    have hl' : l=Numeral.ofInt x.int := by
      apply Numeral.eq_ofInt
      rw [← hxl,Number.text_eq hint.2]
    rw [← hxl,hl',numberText_ofInt hint]
  rw [canonicalJson_text,mapNumbers_of_eq hread,Option.map_some,hj,arranged_map,
    arranged_arranged v.distinct,text_map]

end Value
end Execd
end TradeGate.Canonical
