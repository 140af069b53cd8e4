import Mathlib.Tactic.IntervalCases
import TradeGate.Model.Canonical

/-! The compact text of a JSON tree determines the tree: no text of one is the beginning of another's
but for a number, and what follows a number starts with a delimiter. -/
namespace TradeGate.Canonical
open Js

/-! Strings. -/

def hexValue (c : Char) : ℕ := if c.isDigit then c.toNat-48 else c.toNat-87

/-- The first character of an escaped text, and what follows it. -/
def unescape : List Char → Option (Char × List Char)
  | '\\' :: 'n'::cs => some ('\n',cs)
  | '\\' :: 'r'::cs => some ('\r',cs)
  | '\\' :: 't'::cs => some ('\t',cs)
  | '\\' :: 'b'::cs => some (Char.ofNat 8,cs)
  | '\\' :: 'f'::cs => some (Char.ofNat 12,cs)
  | '\\' :: 'u'::_::_::a::b::cs => some (Char.ofNat (16*hexValue a+hexValue b),cs)
  | '\\'::c::cs => some (c,cs)
  | c::cs => some (c,cs)
  | [] => none

theorem unescape_plain {c : Char} (h : c ≠ '\\') (cs : List Char) : unescape (c::cs)=some (c,cs) := by
  unfold unescape
  split
  all_goals first
    | next h' => exact absurd (List.cons.inj h').1 h
    | next h' =>
      obtain ⟨rfl,rfl⟩ := List.cons.inj h'
      rfl
    | next h' => cases h'

theorem unescape_control {n : ℕ} (h : n<32) (cs : List Char) :
    unescape (("\\u00" ++ String.ofList [Nat.digitChar (n/16),Nat.digitChar (n%16)]).toList ++ cs) =
      some (Char.ofNat n,cs) := by
  simp only [String.toList_append,String.toList_ofList]
  interval_cases n <;> rfl

theorem unescape_jsonChar (c : Char) (cs : List Char) :
    unescape ((jsonChar c).toList ++ cs)=some (c,cs) := by
  unfold jsonChar
  split_ifs with h₁ h₂ h₃ h₄ h₅ h₆ h₇ h₈
  · subst h₁; rfl
  · subst h₂; rfl
  · subst h₃; rfl
  · subst h₄; rfl
  · subst h₅; rfl
  · subst h₆; rfl
  · subst h₇; rfl
  · rw [unescape_control h₈,Char.ofNat_toNat]
  · rw [Char.toString_eq_singleton,String.toList_singleton]
    exact unescape_plain h₂ cs

theorem jsonChar_inj {c d : Char} {xs ys : List Char}
    (h : (jsonChar c).toList ++ xs=(jsonChar d).toList ++ ys) : c=d ∧ xs=ys := by
  have hu := unescape_jsonChar c xs
  rw [h,unescape_jsonChar d ys] at hu
  exact ⟨(Prod.mk.inj (Option.some.inj hu)).1.symm,(Prod.mk.inj (Option.some.inj hu)).2.symm⟩

/-- No escaped character starts like the end of the string. -/
theorem jsonChar_ne_quote (c : Char) (xs ys : List Char) : (jsonChar c).toList ++ xs ≠ '"'::ys := by
  unfold jsonChar
  split_ifs with h₁ h₂ h₃ h₄ h₅ h₆ h₇ h₈
  case neg =>
    rw [Char.toString_eq_singleton,String.toList_singleton]
    exact fun h => h₁ (List.cons.inj h).1
  all_goals try rw [String.toList_append]
  all_goals exact fun h => absurd (List.head_eq_of_cons_eq h) (by decide)

theorem escaped_inj {cs ds xs ys : List Char}
    (h : (cs.flatMap fun c => (jsonChar c).toList) ++ '"'::xs =
      (ds.flatMap fun c => (jsonChar c).toList) ++ '"'::ys) : cs=ds ∧ xs=ys := by
  induction cs generalizing ds with
  | nil =>
    cases ds with
    | nil => exact ⟨rfl,(List.cons.inj h).2⟩
    | cons d ds =>
      rw [List.flatMap_cons,List.append_assoc] at h
      exact absurd h.symm (jsonChar_ne_quote d _ _)
  | cons c cs ih =>
    cases ds with
    | nil =>
      rw [List.flatMap_cons,List.append_assoc] at h
      exact absurd h (jsonChar_ne_quote c _ _)
    | cons d ds =>
      rw [List.flatMap_cons,List.flatMap_cons,List.append_assoc,List.append_assoc] at h
      obtain ⟨rfl,h'⟩ := jsonChar_inj h
      obtain ⟨rfl,hx⟩ := ih h'
      exact ⟨rfl,hx⟩

/-- A string in JSON is told from what follows it. -/
theorem jsonString_inj {s t : String} {xs ys : List Char}
    (h : (jsonString s).toList ++ xs=(jsonString t).toList ++ ys) : s=t ∧ xs=ys := by
  rw [jsonString_toList,jsonString_toList] at h
  simp only [List.cons_append,List.append_assoc,List.nil_append,List.cons.injEq,true_and] at h
  obtain ⟨hs,hx⟩ := escaped_inj h
  exact ⟨String.toList_injective hs,hx⟩

/-! Numbers. -/

/-- A character that ends a number. -/
def delimits (c : Char) : Bool := c = ',' || c = ']' || c = '\x7d'

/-- The text is empty, or starts with a delimiter. -/
def Delimited (cs : List Char) : Prop := ∀ c ∈ cs.head?, delimits c=true

theorem delimited_nil : Delimited [] := by simp [Delimited]

theorem delimited_cons {c : Char} {cs : List Char} (h : delimits c=true) : Delimited (c::cs) := by
  simpa [Delimited] using h

/-- A text without delimiters is told from a delimited rest. -/
theorem append_delimited_inj {cs ds xs ys : List Char} (hc : ∀ c ∈ cs, delimits c=false)
    (hd : ∀ d ∈ ds, delimits d=false) (hx : Delimited xs) (hy : Delimited ys)
    (h : cs++xs=ds++ys) : cs=ds ∧ xs=ys := by
  rcases List.append_eq_append_iff.mp h with ⟨as,rfl,rfl⟩|⟨as,rfl,rfl⟩
  · cases as with
    | nil => simp
    | cons a as =>
      have ha := hd a (by simp)
      have hx' := hx a (by simp)
      rw [ha] at hx'
      cases hx'
  · cases as with
    | nil => simp
    | cons a as =>
      have ha := hc a (by simp)
      have hy' := hy a (by simp)
      rw [ha] at hy'
      cases hy'

/-- The constructors, as a text shows them. -/
inductive Kind | null | bool | num | str | arr | obj
deriving DecidableEq

/-- What the first character tells. -/
def kindOf (c : Char) : Option Kind :=
  if c = 'n' then some .null
  else if c = 't' ∨ c = 'f' then some .bool
  else if c = '"' then some .str
  else if c = '[' then some .arr
  else if c = '\x7b' then some .obj
  else if delimits c then none
  else some .num

/-- A text that reads as a number. -/
structure Numeric (s : String) : Prop where
  head : ∃ c cs, s.toList=c::cs ∧ kindOf c=some .num
  plain : ∀ c ∈ s.toList, delimits c=false

namespace Tree

variable {ν μ : Type}

def kind : Tree ν → Kind
  | null => .null
  | bool _ => .bool
  | num _ => .num
  | str _ => .str
  | arr _ => .arr
  | obj _ => .obj

/-! The same tree over other numbers. -/
mutual

def map (f : ν → μ) : Tree ν → Tree μ
  | null => null
  | bool b => bool b
  | num x => num (f x)
  | str s => str s
  | arr xs => arr (mapAll f xs)
  | obj members => obj (mapMembers f members)

def mapAll (f : ν → μ) : List (Tree ν) → List (Tree μ)
  | [] => []
  | x::xs => map f x::mapAll f xs

def mapMembers (f : ν → μ) : List (String × Tree ν) → List (String × Tree μ)
  | [] => []
  | (k,x)::ms => (k,map f x)::mapMembers f ms

end

variable {f : ν → String} {g : μ → String}

theorem text_arr (xs : List (Tree ν)) :
    (text f (arr xs)).toList = '['::((texts f xs).toList++[']']) := by
  rw [text,String.toList_append,String.toList_append]
  rfl

theorem text_obj (ms : List (String × Tree ν)) :
    (text f (obj ms)).toList = '\x7b'::((memberTexts f ms).toList++['\x7d']) := by
  rw [text,String.toList_append,String.toList_append]
  rfl

theorem memberTexts_cons (k : String) (x : Tree ν) (ms : List (String × Tree ν)) :
    (memberTexts f ((k,x)::ms)).toList = (jsonString k).toList ++ ':'::((text f x).toList++
      (if ms.isEmpty then "" else "," ++ memberTexts f ms : String).toList) := by
  rw [memberTexts,String.toList_append,String.toList_append,String.toList_append,List.append_assoc,
    List.append_assoc]
  rfl

theorem text_head (hf : ∀ x, Numeric (f x)) (t : Tree ν) :
    ∃ c cs, (text f t).toList=c::cs ∧ kindOf c=some t.kind := by
  cases t with
  | null => exact ⟨ 'n',_,by rw [text]; rfl,rfl⟩
  | bool b =>
    cases b
    · exact ⟨ 'f',_,by rw [text]; rfl,rfl⟩
    · exact ⟨ 't',_,by rw [text]; rfl,rfl⟩
  | num x => exact (hf x).head
  | str s => exact ⟨ '"',_,by rw [text,jsonString_toList]; rfl,rfl⟩
  | arr xs => exact ⟨ '[',_,text_arr xs,rfl⟩
  | obj ms => exact ⟨ '\x7b',_,text_obj ms,rfl⟩

theorem kind_eq (hf : ∀ x, Numeric (f x)) (hg : ∀ x, Numeric (g x)) {t : Tree ν} {u : Tree μ}
    {r r' : List Char} (h : (text f t).toList++r=(text g u).toList++r') : t.kind=u.kind := by
  obtain ⟨c,cs,hc,hkc⟩ := text_head hf t
  obtain ⟨d,ds,hd,hkd⟩ := text_head hg u
  rw [hc,hd] at h
  rw [(List.cons.inj h).1,hkd] at hkc
  exact (Option.some.inj hkc).symm

/-- A text is not the end of a list. -/
theorem text_ne_delimited (hf : ∀ x, Numeric (f x)) (t : Tree ν) {c : Char} {xs ys : List Char}
    (hc : delimits c=true) : (text f t).toList++xs ≠ c::ys := by
  obtain ⟨d,ds,h,hk⟩ := text_head hf t
  rw [h]
  rintro h'
  obtain ⟨rfl,-⟩ := List.cons.inj h'
  have hnone : kindOf d=none := by
    revert hc
    unfold kindOf delimits
    intro hc
    simp only [Bool.or_eq_true,decide_eq_true_eq] at hc
    rcases hc with (rfl|rfl)|rfl <;> decide
  rw [hnone] at hk
  cases hk

/-- What follows an element of a list. -/
theorem rest_delimited {c : Char} (hc : delimits c=true) (b : Bool) (s : String) (r : List Char) :
    Delimited ((if b then "" else "," ++ s : String).toList++c::r) := by
  cases b
  · rw [if_neg (by decide),String.toList_append]
    exact delimited_cons rfl
  · exact delimited_cons hc

/-- Two lists go on alike after an element, or both end. -/
theorem rest_inj {c : Char} (hc : c ≠ ',') {b b' : Bool} {s s' : String} {r r' : List Char}
    (h : (if b then "" else "," ++ s : String).toList++c::r =
      (if b' then "" else "," ++ s' : String).toList++c::r') :
    b=b' ∧ s.toList++c::r=s'.toList++c::r' ∨ b=true ∧ b'=true ∧ r=r' := by
  cases b <;> cases b' <;>
    simp only [Bool.false_eq_true,if_false,if_true,String.toList_append] at h
  · exact .inl ⟨rfl,(List.cons.inj h).2⟩
  · exact absurd (List.cons.inj h).1.symm hc
  · exact absurd (List.cons.inj h).1 hc
  · exact .inr ⟨rfl,rfl,(List.cons.inj h).2⟩

/-! A text with a delimited rest determines the tree and the rest. -/
mutual

theorem text_append_inj (hf : ∀ x, Numeric (f x)) (hg : ∀ x, Numeric (g x)) :
    ∀ (t : Tree ν) (u : Tree μ) {r r' : List Char}, Delimited r → Delimited r' →
      (text f t).toList++r=(text g u).toList++r' → t.map f=u.map g ∧ r=r'
  | null, u, r, r', _, _, h => by
    have hk := kind_eq hf hg h
    cases u with
    | null => exact ⟨by rw [map,map],by simpa [text] using h⟩
    | _ => cases hk
  | bool b, u, r, r', _, _, h => by
    have hk := kind_eq hf hg h
    cases u with
    | bool b' => cases b <;> cases b' <;> simp [text,map] at h ⊢ <;> exact h
    | _ => cases hk
  | num x, u, r, r', hr, hr', h => by
    have hk := kind_eq hf hg h
    cases u with
    | num y =>
      rw [text,text] at h
      obtain ⟨hxy,hrr⟩ := append_delimited_inj (hf x).plain (hg y).plain hr hr' h
      exact ⟨by rw [map,map,String.toList_injective hxy],hrr⟩
    | _ => cases hk
  | str s, u, r, r', _, _, h => by
    have hk := kind_eq hf hg h
    cases u with
    | str s' =>
      rw [text,text] at h
      obtain ⟨hs,hrr⟩ := jsonString_inj h
      exact ⟨by rw [map,map,hs],hrr⟩
    | _ => cases hk
  | arr xs, u, r, r', _, _, h => by
    have hk := kind_eq hf hg h
    cases u with
    | arr ys =>
      rw [text_arr,text_arr,List.cons_append,List.cons_append,List.append_assoc,List.append_assoc] at h
      obtain ⟨hm,hrr⟩ := texts_append_inj hf hg xs ys (List.cons.inj h).2
      exact ⟨by rw [map,map,hm],hrr⟩
    | _ => cases hk
  | obj ms, u, r, r', _, _, h => by
    have hk := kind_eq hf hg h
    cases u with
    | obj ns =>
      rw [text_obj,text_obj,List.cons_append,List.cons_append,List.append_assoc,List.append_assoc] at h
      obtain ⟨hm,hrr⟩ := memberTexts_append_inj hf hg ms ns (List.cons.inj h).2
      exact ⟨by rw [map,map,hm],hrr⟩
    | _ => cases hk

theorem texts_append_inj (hf : ∀ x, Numeric (f x)) (hg : ∀ x, Numeric (g x)) :
    ∀ (xs : List (Tree ν)) (ys : List (Tree μ)) {r r' : List Char},
      (texts f xs).toList++(']'::r)=(texts g ys).toList++(']'::r') →
        mapAll f xs=mapAll g ys ∧ r=r'
  | [], ys, r, r', h => by
    cases ys with
    | nil => exact ⟨by rw [mapAll,mapAll],(List.cons.inj h).2⟩
    | cons y ys =>
      rw [texts.eq_2,String.toList_append,List.append_assoc] at h
      exact absurd h.symm (text_ne_delimited hg y rfl)
  | x::xs, ys, r, r', h => by
    cases ys with
    | nil =>
      rw [texts.eq_2,String.toList_append,List.append_assoc] at h
      exact absurd h (text_ne_delimited hf x rfl)
    | cons y ys =>
      rw [texts.eq_2,texts.eq_2,String.toList_append,String.toList_append,List.append_assoc,
        List.append_assoc] at h
      obtain ⟨hx,h'⟩ := text_append_inj hf hg x y (rest_delimited rfl _ _ _)
        (rest_delimited rfl _ _ _) h
      rw [mapAll.eq_2,mapAll.eq_2,hx]
      rcases rest_inj (by decide) h' with ⟨-,h'⟩|⟨hn,hn',hrr⟩
      · obtain ⟨hxs,hrr⟩ := texts_append_inj hf hg xs ys h'
        exact ⟨by rw [hxs],hrr⟩
      · rw [List.isEmpty_iff.mp hn,List.isEmpty_iff.mp hn']
        exact ⟨rfl,hrr⟩

theorem memberTexts_append_inj (hf : ∀ x, Numeric (f x)) (hg : ∀ x, Numeric (g x)) :
    ∀ (ms : List (String × Tree ν)) (ns : List (String × Tree μ)) {r r' : List Char},
      (memberTexts f ms).toList++('\x7d'::r)=(memberTexts g ns).toList++('\x7d'::r') →
        mapMembers f ms=mapMembers g ns ∧ r=r'
  | [], ns, r, r', h => by
    cases ns with
    | nil => exact ⟨by rw [mapMembers,mapMembers],(List.cons.inj h).2⟩
    | cons n ns =>
      rw [memberTexts_cons,jsonString_toList] at h
      exact absurd (List.head_eq_of_cons_eq h) (by decide)
  | (k,x)::ms, ns, r, r', h => by
    cases ns with
    | nil =>
      rw [memberTexts_cons,jsonString_toList] at h
      exact absurd (List.head_eq_of_cons_eq h) (by decide)
    | cons n ns =>
      obtain ⟨l,y⟩ := n
      rw [memberTexts_cons,memberTexts_cons,List.append_assoc,List.append_assoc,List.cons_append,
        List.cons_append,List.append_assoc,List.append_assoc] at h
      obtain ⟨hkl,h'⟩ := jsonString_inj h
      obtain ⟨hx,h'⟩ := text_append_inj hf hg x y (rest_delimited rfl _ _ _)
        (rest_delimited rfl _ _ _) (List.cons.inj h').2
      rw [mapMembers.eq_2,mapMembers.eq_2,hx,hkl]
      rcases rest_inj (by decide) h' with ⟨-,h'⟩|⟨hn,hn',hrr⟩
      · obtain ⟨hms,hrr⟩ := memberTexts_append_inj hf hg ms ns h'
        exact ⟨by rw [hms],hrr⟩
      · rw [List.isEmpty_iff.mp hn,List.isEmpty_iff.mp hn']
        exact ⟨rfl,hrr⟩

end

/-! The text depends on the texts of the numbers only. -/
mutual

theorem text_map (f : ν → String) : ∀ t : Tree ν, text id (t.map f)=text f t
  | null => by rw [map,text,text]
  | bool b => by rw [map,text,text]
  | num x => by rw [map,text,text,id]
  | str s => by rw [map,text,text]
  | arr xs => by rw [map,text,text,texts_map f xs]
  | obj ms => by rw [map,text,text,memberTexts_map f ms]

theorem texts_map (f : ν → String) : ∀ xs : List (Tree ν), texts id (mapAll f xs)=texts f xs
  | [] => by rw [mapAll,texts,texts]
  | x::xs => by
    have he : (mapAll f xs).isEmpty=xs.isEmpty := by
      cases xs with
      | nil => rw [mapAll,List.isEmpty_nil,List.isEmpty_nil]
      | cons y ys => rw [mapAll.eq_2,List.isEmpty_cons,List.isEmpty_cons]
    rw [mapAll,texts,texts,text_map f x,texts_map f xs,he]

theorem memberTexts_map (f : ν → String) :
    ∀ ms : List (String × Tree ν), memberTexts id (mapMembers f ms)=memberTexts f ms
  | [] => by rw [mapMembers,memberTexts,memberTexts]
  | (k,x)::ms => by
    have he : (mapMembers f ms).isEmpty=ms.isEmpty := by
      cases ms with
      | nil => rw [mapMembers,List.isEmpty_nil,List.isEmpty_nil]
      | cons m ms => rw [mapMembers.eq_2,List.isEmpty_cons,List.isEmpty_cons]
    rw [mapMembers,memberTexts,memberTexts,text_map f x,memberTexts_map f ms,he]

end

/-- Two trees have one text if and only if they are alike up to the texts of their numbers. -/
theorem text_eq_iff (hf : ∀ x, Numeric (f x)) (hg : ∀ x, Numeric (g x)) {t : Tree ν} {u : Tree μ} :
    text f t=text g u ↔ t.map f=u.map g := by
  constructor
  · intro h
    exact (text_append_inj hf hg t u delimited_nil delimited_nil (by rw [h])).1
  · intro h
    rw [← text_map f,h,text_map]

end Tree
end TradeGate.Canonical
