import TradeGate.Js.ReadBack

/-! A text that was written without indentation stays on its line. -/
namespace Js.Json

/-- No character is a control character. -/
def Plain (cs : List Char) : Prop := ∀ c ∈ cs, 32 ≤ c.toNat

instance (cs : List Char) : Decidable (Plain cs) := List.decidableBAll (fun c : Char => 32 ≤ c.toNat) cs

section
variable {cs ds : List Char}

theorem plain_append (h : Plain cs) (h' : Plain ds) : Plain (cs ++ ds) := by
  intro c hc
  exact (List.mem_append.mp hc).elim (h c) (h' c)

theorem plain_cons {c : Char} (hc : 32 ≤ c.toNat) (h : Plain cs) : Plain (c::cs) :=
  List.forall_mem_cons.mpr ⟨hc,h⟩

theorem plain_jsonChar (c : Char) : Plain (jsonChar c).toList := by
  unfold jsonChar
  split_ifs with h₁ h₂ h₃ h₄ h₅ h₆ h₇ h₈
  iterate 7 · decide
  · have hdigit : ∀ n<32, Plain [Nat.digitChar (n/16),Nat.digitChar (n%16)] := by decide
    rw [String.toList_append]
    exact plain_append (by decide) (String.toList_ofList ▸ hdigit _ h₈)
  · rw [Char.toString_eq_singleton,String.toList_singleton]
    exact plain_cons (by omega) (List.forall_mem_nil _)

theorem plain_jsonString (s : String) : Plain (jsonString s).toList := by
  rw [jsonString_toList]
  refine plain_append (plain_cons (by decide) ?_) (by decide)
  intro d hd
  obtain ⟨c,-,hc⟩ := List.mem_flatMap.mp hd
  exact plain_jsonChar c d hc

theorem plain_number {q : ℚ} (hq : Double.round q=.fin q) : Plain (Double.text (.fin q)).toList := by
  obtain ⟨x,hx,-⟩ := Option.map_eq_some_iff.mp (numeral_text hq)
  intro c hc
  have hnum := (numberChars_numeral hx).2 c hc
  simp only [numberChar,Bool.or_eq_true,decide_eq_true_eq] at hnum
  rcases hnum with ((((h | rfl) | rfl) | rfl) | rfl) | rfl
  · rw [Char.isDigit,Bool.and_eq_true,decide_eq_true_eq,decide_eq_true_eq] at h
    have hlow : 48 ≤ c.toNat := h.1
    omega
  all_goals decide

mutual

theorem plain_write (ind : List Char) : ∀ v, Proper v → Plain (write [] ind v)
  | .null, _ => show Plain "null".toList by decide
  | .bool true, _ => show Plain "true".toList by decide
  | .bool false, _ => show Plain "false".toList by decide
  | .num x, hv => by
    obtain ⟨q,rfl,hq⟩ := hv
    exact plain_number hq
  | .str s, _ => plain_jsonString s
  | .arr [], _ => show Plain ['[',']'] by decide
  | .arr (x::xs), hv => by
    rw [write]
    · refine plain_append (plain_append (plain_cons (by decide) ?_) (List.forall_mem_nil _)) (by decide)
      exact plain_writeItems _ (x::xs) hv
    · intro h
      cases h
  | .obj [], _ => show Plain ['\x7b','\x7d'] by decide
  | .obj (f::fields), hv => by
    rw [write]
    · refine plain_append (plain_append (plain_cons (by decide) ?_) (List.forall_mem_nil _)) (by decide)
      exact plain_writeMembers _ (f::fields) hv.2
    · intro h
      cases h

theorem plain_writeItems (ind : List Char) : ∀ xs, ProperAll xs → Plain (writeItems [] ind xs)
  | [], _ => List.forall_mem_nil _
  | [x], hv => plain_write ind x hv.1
  | x::y::xs, hv => by
    rw [writeItems]
    · refine plain_append (plain_append (plain_write ind x hv.1) ?_) (plain_writeItems ind (y::xs) hv.2)
      exact show Plain [','] by decide
    · intro h
      cases h

theorem plain_writeMembers (ind : List Char) :
    ∀ fields, ProperFields fields → Plain (writeMembers [] ind fields)
  | [], _ => List.forall_mem_nil _
  | [(k,x)], hv => plain_append (plain_append (plain_jsonString k) (by decide)) (plain_write ind x hv.1)
  | (k,x)::f::fields, hv => by
    rw [writeMembers]
    · refine plain_append (plain_append (plain_append (plain_append (plain_jsonString k) (by decide))
        (plain_write ind x hv.1)) ?_) (plain_writeMembers ind (f::fields) hv.2)
      exact show Plain [','] by decide
    · intro h
      cases h

end

end

theorem plain_stringify {v : Value} (hv : Proper v) : Plain (stringify [] v) := plain_write [] v hv

end Js.Json
