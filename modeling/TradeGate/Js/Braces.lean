import TradeGate.Js.ReadBack

/-! A text read brace by brace, outside of its strings.  What a value is written as leaves a reader that stands
within braces where it was. -/
namespace Js

/-- In a string or outside, past a backslash in it or not, and what is known of the braces. -/
structure Reader (τ : Type) where
  inStr : Bool
  esc : Bool
  state : τ

namespace Reader

section
variable {τ : Type} (opened closed : τ → ℕ → τ)

/-- The character at a position. -/
def next (r : Reader τ) (i : ℕ) (c : Char) : Reader τ :=
  if r.inStr then
    if r.esc then { r with esc := false }
    else if c = '\\' then { r with esc := true }
    else if c = '"' then { r with inStr := false }
    else r
  else if c = '"' then { r with inStr := true }
  else if c = '\x7b' then { r with state := opened r.state i }
  else if c = '\x7d' then { r with state := closed r.state i }
  else r

def run : ℕ → List Char → Reader τ → Reader τ
  | _, [], r => r
  | i, c::cs, r => run (i+1) cs (r.next opened closed i c)

variable {opened closed} {i : ℕ} {t : τ} {c : Char} {cs ds : List Char}

theorem run_append (cs ds : List Char) (i : ℕ) (r : Reader τ) : run opened closed i (cs ++ ds) r =
    run opened closed (i+cs.length) ds (run opened closed i cs r) := by
  induction cs generalizing i r with
  | nil => rfl
  | cons c cs ih =>
    rw [List.cons_append,run,ih,run,List.length_cons,Nat.add_right_comm,Nat.add_assoc]

/-! Within a string. -/

theorem next_string (hq : c ≠ '"') (hb : c ≠ '\\') : next opened closed ⟨true,false,t⟩ i c=⟨true,false,t⟩ := by
  simp [next,hq,hb]

theorem run_string (h : ∀ c ∈ cs, c ≠ '"' ∧ c ≠ '\\') : run opened closed i cs ⟨true,false,t⟩=⟨true,false,t⟩ := by
  induction cs generalizing i with
  | nil => rfl
  | cons c cs ih =>
    obtain ⟨hc,hcs⟩ := List.forall_mem_cons.mp h
    rw [run,next_string hc.1 hc.2,ih hcs]

theorem run_escape (c : Char) (cs : List Char) : run opened closed i ('\\' :: c::cs) ⟨true,false,t⟩ =
    run opened closed (i+2) cs ⟨true,false,t⟩ := rfl

/-- An escaped character stays within its string. -/
theorem run_jsonChar (c : Char) : run opened closed i (jsonChar c).toList ⟨true,false,t⟩=⟨true,false,t⟩ := by
  unfold jsonChar
  split_ifs with hq hb h₃ h₄ h₅ h₆ h₇ h₈
  iterate 7 · exact run_escape _ _
  · have hdigit : ∀ n<32, Nat.digitChar n ≠ '"' ∧ Nat.digitChar n ≠ '\\' := by decide
    have htext : ("\\u00" ++ String.ofList [Nat.digitChar (c.toNat/16),Nat.digitChar (c.toNat%16)]).toList =
        '\\' :: 'u' :: '0' :: '0' :: [Nat.digitChar (c.toNat/16),Nat.digitChar (c.toNat%16)] := by
      simp only [String.toList_append,String.toList_ofList]
      rfl
    have hplain : ∀ d ∈ [Nat.digitChar (c.toNat/16),Nat.digitChar (c.toNat%16)], d ≠ '"' ∧ d ≠ '\\' :=
      List.forall_mem_cons.mpr ⟨hdigit _ (by omega),List.forall_mem_singleton.mpr (hdigit _ (by omega))⟩
    rw [htext]
    change run opened closed (i+1+1+1+1) _ ⟨true,false,t⟩=_
    exact run_string hplain
  · rw [Char.toString_eq_singleton,String.toList_singleton]
    exact run_string (List.forall_mem_singleton.mpr ⟨hq,hb⟩)

theorem run_jsonChars (cs : List Char) :
    run opened closed i (cs.flatMap fun c => (jsonChar c).toList) ⟨true,false,t⟩=⟨true,false,t⟩ := by
  induction cs generalizing i with
  | nil => rfl
  | cons c cs ih => rw [List.flatMap_cons,run_append,run_jsonChar,ih]

end

/-! Within braces. -/
section
variable {τ : Type} {opened closed : τ → ℕ → τ} {Within : τ → Prop} {cs ds : List Char}

/-- A reader that stands within braces, outside of strings, is left where it was. -/
def Quiet (opened closed : τ → ℕ → τ) (Within : τ → Prop) (cs : List Char) : Prop :=
  ∀ i t, Within t → run opened closed i cs ⟨false,false,t⟩=⟨false,false,t⟩

theorem quiet_append (h : Quiet opened closed Within cs) (h' : Quiet opened closed Within ds) :
    Quiet opened closed Within (cs ++ ds) := by
  intro i t ht
  rw [run_append,h _ _ ht,h' _ _ ht]

theorem quiet_char {c : Char} (hq : c ≠ '"') (ho : c ≠ '\x7b') (hc : c ≠ '\x7d') :
    Quiet opened closed Within [c] := by
  intro i t _
  simp [run,next,hq,ho,hc]

theorem quiet_string (s : String) : Quiet opened closed Within (jsonString s).toList := by
  intro i t _
  rw [jsonString_toList,List.cons_append]
  change run opened closed (i+1) _ ⟨true,false,t⟩=_
  rw [run_append,run_jsonChars]
  rfl

theorem quiet_braces (hopen : ∀ t i, Within t → Within (opened t i))
    (hclose : ∀ t i j, Within t → closed (opened t i) j=t) (h : Quiet opened closed Within cs) :
    Quiet opened closed Within ('\x7b' :: (cs ++ ['\x7d'])) := by
  intro i t ht
  change run opened closed (i+1) _ ⟨false,false,opened t i⟩=_
  rw [run_append,h _ _ (hopen t i ht)]
  exact congrArg (Reader.mk false false) (hclose t i _ ht)

end

end Reader

/-! What is closed under the shapes of JSON holds of all that is written. -/
namespace Json

/-- It holds of single characters other than quotes and braces, of strings, and of what stands one after the
other or in braces. -/
structure Closed (P : List Char → Prop) : Prop where
  nil : P []
  append {cs ds : List Char} : P cs → P ds → P (cs ++ ds)
  char {c : Char} : c ≠ '"' → c ≠ '\x7b' → c ≠ '\x7d' → P [c]
  string (s : String) : P (jsonString s).toList
  object {cs : List Char} : P cs → P ('\x7b' :: (cs ++ ['\x7d']))

namespace Closed

variable {P : List Char → Prop} {gap ind : List Char}

theorem chars (h : Closed P) {cs : List Char} (hcs : ∀ c ∈ cs, c ≠ '"' ∧ c ≠ '\x7b' ∧ c ≠ '\x7d') : P cs := by
  induction cs with
  | nil => exact h.nil
  | cons c cs ih =>
    obtain ⟨⟨hq,ho,hc⟩,htail⟩ := List.forall_mem_cons.mp hcs
    exact h.append (h.char hq ho hc) (ih htail)

theorem cons (h : Closed P) {c : Char} {cs : List Char} (hc : c ≠ '"' ∧ c ≠ '\x7b' ∧ c ≠ '\x7d') (hcs : P cs) :
    P (c::cs) := h.append (h.char hc.1 hc.2.1 hc.2.2) hcs

theorem plain_of_isSpace {c : Char} (h : isSpace c=true) : c ≠ '"' ∧ c ≠ '\x7b' ∧ c ≠ '\x7d' := by
  refine ⟨?_,?_,?_⟩ <;>
  · rintro rfl
    revert h
    decide

theorem plain_of_numberChar {c : Char} (h : numberChar c=true) : c ≠ '"' ∧ c ≠ '\x7b' ∧ c ≠ '\x7d' := by
  refine ⟨?_,?_,?_⟩ <;>
  · rintro rfl
    revert h
    decide

theorem spaces (h : Closed P) {cs : List Char} (hcs : Spaces cs) : P cs :=
  h.chars fun c hc => plain_of_isSpace (hcs c hc)

theorem number (h : Closed P) {q : ℚ} (hq : Double.round q=.fin q) : P (Double.text (.fin q)).toList := by
  obtain ⟨x,hx,-⟩ := Option.map_eq_some_iff.mp (numeral_text hq)
  exact h.chars fun c hc => plain_of_numberChar ((numberChars_numeral hx).2 c hc)

theorem colon (h : Closed P) (gap : List Char) : P (if gap=[] then [':'] else [':',' ']) := by
  split
  · exact h.char (by decide) (by decide) (by decide)
  · exact h.cons (by decide) (h.char (by decide) (by decide) (by decide))

mutual

theorem write (h : Closed P) (hgap : Spaces gap) : ∀ v, Proper v → ∀ ind, Spaces ind → P (Json.write gap ind v)
  | .null, _, _, _ => h.cons (by decide) (h.cons (by decide) (h.cons (by decide) (h.cons (by decide) h.nil)))
  | .bool true, _, _, _ =>
    h.cons (by decide) (h.cons (by decide) (h.cons (by decide) (h.cons (by decide) h.nil)))
  | .bool false, _, _, _ =>
    h.cons (by decide) (h.cons (by decide) (h.cons (by decide) (h.cons (by decide) (h.cons (by decide) h.nil))))
  | .num x, hv, _, _ => by
    obtain ⟨q,rfl,hq⟩ := hv
    exact h.number hq
  | .str s, _, _, _ => h.string s
  | .arr [], _, _, _ => h.cons (by decide) (h.cons (by decide) h.nil)
  | .arr (x::xs), hv, ind, hind => by
    have hin := spaces_append hgap hind
    rw [Json.write]
    · refine h.append (h.append (h.append (h.cons (by decide) (h.spaces (spaces_line hin))) ?_)
        (h.spaces (spaces_line hind))) (h.char (by decide) (by decide) (by decide))
      exact h.writeItems hgap (x::xs) hv _ hin
    · intro hnil
      cases hnil
  | .obj [], _, _, _ => h.object h.nil
  | .obj (f::fields), hv, ind, hind => by
    have hin := spaces_append hgap hind
    rw [Json.write]
    · have hmembers := h.writeMembers hgap (f::fields) hv.2 _ hin
      have hline : Spaces (line gap (ind ++ gap)) := spaces_line hin
      have hend : Spaces (line gap ind) := spaces_line hind
      have hbody := h.append (h.append (h.spaces hline) hmembers) (h.spaces hend)
      simpa only [List.cons_append,List.append_assoc] using h.object hbody
    · intro hnil
      cases hnil

theorem writeItems (h : Closed P) (hgap : Spaces gap) : ∀ xs, ProperAll xs → ∀ ind, Spaces ind →
    P (Json.writeItems gap ind xs)
  | [], _, _, _ => h.nil
  | [x], hv, ind, hind => h.write hgap x hv.1 ind hind
  | x::y::xs, hv, ind, hind => by
    rw [Json.writeItems]
    · refine h.append (h.append (h.write hgap x hv.1 ind hind) ?_) (h.writeItems hgap (y::xs) hv.2 ind hind)
      exact h.cons (by decide) (h.spaces (spaces_line hind))
    · intro hnil
      cases hnil

theorem writeMembers (h : Closed P) (hgap : Spaces gap) : ∀ fields, ProperFields fields → ∀ ind, Spaces ind →
    P (Json.writeMembers gap ind fields)
  | [], _, _, _ => h.nil
  | [(k,x)], hv, ind, hind => h.append (h.append (h.string k) (h.colon gap)) (h.write hgap x hv.1 ind hind)
  | (k,x)::f::fields, hv, ind, hind => by
    rw [Json.writeMembers]
    · refine h.append (h.append (h.append (h.append (h.string k) (h.colon gap)) (h.write hgap x hv.1 ind hind)) ?_)
        (h.writeMembers hgap (f::fields) hv.2 ind hind)
      exact h.cons (by decide) (h.spaces (spaces_line hind))
    · intro hnil
      cases hnil

end

/-- An object is written in braces around what it holds of. -/
theorem stringify_obj (h : Closed P) (hgap : Spaces gap) {fields : List (String × Value)} (hv : Proper (.obj fields)) :
    ∃ cs, stringify gap (.obj fields)= '\x7b' :: (cs ++ ['\x7d']) ∧ P cs := by
  have hnil : Spaces ([] : List Char) := List.forall_mem_nil _
  have hin := spaces_append hgap hnil
  cases fields with
  | nil => exact ⟨[],rfl,h.nil⟩
  | cons f fields =>
    have hmembers := h.writeMembers hgap (f::fields) hv.2 _ hin
    refine ⟨line gap ([] ++ gap) ++ Json.writeMembers gap ([] ++ gap) (f::fields) ++ line gap [],?_,
      h.append (h.append (h.spaces (spaces_line hin)) hmembers) (h.spaces (spaces_line hnil))⟩
    rw [stringify,Json.write]
    · simp only [List.cons_append,List.append_assoc]
    · intro hf
      cases hf

end Closed
end Json
end Js
