import Mathlib.Data.List.TakeWhile
import TradeGate.Machine.Run
import TradeGate.Model.Judgment

/-! Citations of a judgment.  The pattern that looks for them holds on to the first and to the last
reference of a run `[E1][E2]…` only, and passes over every other bracket. -/
namespace TradeGate
open Js

/-! ### Brackets -/

/-- A bracket opened before the text is closed in it; `n` counts those opened since. -/
def closes : ℕ → List Char → Bool
  | _, [] => false
  | n, c::cs =>
    if c = '[' then closes (n+1) cs
    else if c = ']' then n=0 || closes (n-1) cs
    else closes n cs

/-- The references inside square brackets; `d` counts the brackets around the text. -/
def bracketed : ℕ → List Char → List String
  | _, [] => []
  | d, c::cs =>
    if c = '[' then bracketed (if closes 0 cs then d+1 else d) cs
    else if c = ']' then bracketed (d-1) cs
    else (if d=0 then [] else ((evidenceRef (c::cs)).map Prod.fst).toList) ++ bracketed d cs

/-- A bracket that holds one reference and nothing else, and what follows. -/
def loneRef : List Char → Option (String × List Char)
  | '['::cs =>
    match evidenceRef cs with
    | some (r,']'::rest) => some (r,rest)
    | _ => none
  | _ => none

/-- A run of such brackets, and what follows. -/
def loneRun : ℕ → List Char → List String × List Char
  | 0, cs => ([],cs)
  | n+1, cs =>
    match loneRef cs with
    | some (r,rest) => (r::(loneRun n rest).1,(loneRun n rest).2)
    | none => ([],cs)

/-- The references inside brackets, but for the first and the last one of each run. -/
def passedOver : ℕ → ℕ → List Char → List String
  | 0, _, _ => []
  | _+1, _, [] => []
  | n+1, d, c::cs =>
    match loneRun (n+1) (c::cs) with
    | (_::rs,rest) => rs.dropLast ++ passedOver n d rest
    | ([],_) =>
      if c = '[' then passedOver n (if closes 0 cs then d+1 else d) cs
      else if c = ']' then passedOver n (d-1) cs
      else (if d=0 then [] else ((evidenceRef (c::cs)).map Prod.fst).toList) ++ passedOver n d cs

section
variable {cs rest ds : List Char} {r x : String} {d n : ℕ}

theorem evidenceRef_some (h : evidenceRef cs=some (r,rest)) :
    ∃ ds, r.toList = 'E'::ds ∧ cs = 'E'::ds ++ rest ∧ ∀ c ∈ ds, c.isDigit := by
  unfold evidenceRef at h
  split at h
  next cs =>
    dsimp only at h
    split at h
    next => cases h
    next =>
      cases h
      refine ⟨cs.takeWhile Char.isDigit,String.toList_ofList,?_,?_⟩
      · rw [List.cons_append,List.takeWhile_append_dropWhile]
      · intro c hc
        exact List.mem_takeWhile_imp hc
  next => cases h

theorem evidenceRef_of_ne (c : Char) (h : c ≠ 'E') : evidenceRef (c::cs)=none := by
  unfold evidenceRef
  split
  next heq =>
    cases heq
    exact absurd rfl h
  next => rfl

theorem loneRef_some (h : loneRef cs=some (r,rest)) :
    ∃ ds, r.toList = 'E'::ds ∧ cs = '[' :: 'E'::ds ++ ']'::rest ∧ (∀ c ∈ ds, c.isDigit) ∧
      evidenceRef ('E'::ds ++ ']'::rest)=some (r,']'::rest) := by
  unfold loneRef at h
  split at h
  next cs =>
    split at h
    next r' rest' href =>
      cases h
      obtain ⟨ds,hr,rfl,hds⟩ := evidenceRef_some href
      exact ⟨ds,hr,rfl,hds,href⟩
    next => cases h
  next => cases h

theorem ne_of_isDigit {c : Char} (h : c.isDigit) : c ≠ '[' ∧ c ≠ ']' ∧ c ≠ 'E' := by
  refine ⟨?_,?_,?_⟩ <;> rintro rfl <;> revert h <;> decide

theorem closes_digits (hds : ∀ c ∈ ds, c.isDigit) : closes n (ds ++ cs)=closes n cs := by
  induction ds with
  | nil => rfl
  | cons c ds ih =>
    obtain ⟨hc,hds⟩ := List.forall_mem_cons.mp hds
    obtain ⟨h₁,h₂,-⟩ := ne_of_isDigit hc
    rw [List.cons_append,closes,if_neg h₁,if_neg h₂,ih hds]

theorem bracketed_digits (hds : ∀ c ∈ ds, c.isDigit) : bracketed d (ds ++ cs)=bracketed d cs := by
  induction ds with
  | nil => rfl
  | cons c ds ih =>
    obtain ⟨hc,hds⟩ := List.forall_mem_cons.mp hds
    obtain ⟨h₁,h₂,h₃⟩ := ne_of_isDigit hc
    rw [List.cons_append,bracketed,if_neg h₁,if_neg h₂,ih hds,evidenceRef_of_ne c h₃]
    split <;> rfl

theorem bracketed_loneRef (h : loneRef cs=some (r,rest)) : bracketed d cs=r::bracketed d rest := by
  obtain ⟨ds,-,rfl,hds,href⟩ := loneRef_some h
  have hclose : closes 0 ('E'::ds ++ ']'::rest)=true := by
    rw [List.cons_append,closes,if_neg (by decide),if_neg (by decide),closes_digits hds]
    rfl
  rw [List.cons_append,bracketed,if_pos rfl,if_pos hclose]
  rw [List.cons_append] at href ⊢
  rw [bracketed,if_neg (by decide),if_neg (by decide),if_neg (by omega),href,bracketed_digits hds,
    bracketed,if_neg (by decide),if_pos rfl]
  rfl

theorem bracketed_loneRun (d : ℕ) : ∀ n cs,
    bracketed d cs=(loneRun n cs).1 ++ bracketed d (loneRun n cs).2
  | 0, _ => rfl
  | n+1, cs => by
    unfold loneRun
    split
    next r rest h => rw [bracketed_loneRef h,bracketed_loneRun d n rest,List.cons_append]
    next => rfl

/-! ### The pattern -/

theorem loneRun_length (n : ℕ) (cs : List Char) : (loneRun n cs).2.length ≤ cs.length := by
  induction n generalizing cs with
  | zero => exact le_rfl
  | succ n ih =>
    unfold loneRun
    split
    next r rest h =>
      obtain ⟨ds,-,rfl,-,-⟩ := loneRef_some h
      have := ih rest
      simp only [List.length_append,List.length_cons]
      omega
    next => exact le_rfl

theorem loneRun_suffix (n : ℕ) (cs : List Char) :
    (loneRun n cs).2=cs.drop (cs.length-(loneRun n cs).2.length) := by
  induction n generalizing cs with
  | zero => simp [loneRun]
  | succ n ih =>
    unfold loneRun
    split
    next r rest h =>
      obtain ⟨ds,-,rfl,-,-⟩ := loneRef_some h
      dsimp only
      have hlen := loneRun_length n rest
      have hk : ('[' :: 'E'::ds ++ ']'::rest).length-(loneRun n rest).2.length=
          ('[' :: 'E'::ds ++ [']']).length+(rest.length-(loneRun n rest).2.length) := by
        simp only [List.length_append,List.length_cons,List.length_nil]
        omega
      have happ : '[' :: 'E'::ds ++ ']'::rest=('[' :: 'E'::ds ++ [']']) ++ rest := by simp
      rw [hk,happ,← List.drop_drop,List.drop_left]
      exact ih rest
    next => simp

theorem citationTail_of_ne {c : Char} (h : c ≠ ']') : citationTail n (c::cs)=none := by
  unfold citationTail
  split
  next heq =>
    cases heq
    exact absurd rfl h
  next => rfl

theorem citationTail_nil : citationTail n []=none := by
  cases n <;> rfl

theorem loneRef_of_ne {c : Char} (h : c ≠ '[') : loneRef (c::cs)=none := by
  unfold loneRef
  split
  next heq =>
    cases heq
    exact absurd rfl h
  next => rfl

theorem loneRef_unclosed {c : Char} {ds : List Char} (h : evidenceRef ds=some (r,c::rest))
    (hc : c ≠ ']') : loneRef ('['::ds)=none := by
  rw [loneRef,h]
  split
  next heq =>
    cases heq
    exact absurd rfl hc
  next => rfl

/-- What may follow a closing bracket in a citation starts with a bracket of one reference. -/
theorem citationTail_close (n : ℕ) (cs : List Char) : citationTail (n+1) (']'::cs)=
    (((loneRef cs).bind fun x => (citationTail n (']'::x.2)).map fun y =>
      (Option.orElse y.1 fun _ => some x.1,2+x.1.length+y.2)).orElse fun _ => some (none,1)) := by
  by_cases hopen : ∃ ds, cs = '['::ds
  · obtain ⟨ds,rfl⟩ := hopen
    rw [citationTail]
    congr 1
    cases href : evidenceRef ds with
    | none =>
      rw [loneRef,href]
      rfl
    | some p =>
      obtain ⟨r,rest⟩ := p
      cases rest with
      | nil =>
        rw [loneRef,href]
        simp [citationTail_nil]
      | cons c rest =>
        by_cases hc : c = ']'
        · subst hc
          rw [loneRef,href]
          rfl
        · rw [loneRef_unclosed href hc,Option.bind_some]
          dsimp only
          rw [citationTail_of_ne hc]
          rfl
  · rw [citationTail]
    · cases cs with
      | nil => rfl
      | cons c cs =>
        rw [loneRef_of_ne (by rintro rfl; exact hopen ⟨_,rfl⟩)]
        rfl
    · intro ds h
      exact hopen ⟨ds,h⟩

/-- The rest of a citation takes the run up to its end, and holds on to the last reference. -/
theorem citationTail_eq : ∀ n m cs, cs.length<n → cs.length < m → citationTail n (']'::cs)=
    some ((loneRun m cs).1.getLast?,1+(cs.length-(loneRun m cs).2.length))
  | 0, _, _, h, _ => absurd h (by omega)
  | _, 0, _, _, h => absurd h (by omega)
  | n+1, m+1, cs, hn, hm => by
    rw [citationTail_close,loneRun]
    cases href : loneRef cs with
    | none => simp
    | some p =>
      obtain ⟨r,rest⟩ := p
      obtain ⟨ds,hr,hcs,-,-⟩ := loneRef_some href
      have hlen : cs.length=ds.length+3+rest.length := by
        rw [hcs]
        simp only [List.length_append,List.length_cons]
        omega
      have hrest := loneRun_length m rest
      have hrlen : r.length=ds.length+1 := by
        rw [← String.length_toList,hr,List.length_cons]
      rw [Option.bind_some,citationTail_eq n m rest (by omega) (by omega)]
      simp only [Option.map_some,Option.orElse_some,Option.some_inj,Prod.mk.injEq]
      refine ⟨?_,by omega⟩
      rw [List.getLast?_cons]
      cases (loneRun m rest).1.getLast? <;> rfl

/-- A citation is a run of brackets with one reference each. -/
theorem citation_of_loneRun {rs : List String} (hn : cs.length ≤ n)
    (h : loneRun (n+1) cs=(r::rs,rest)) :
    citation cs=some (r::rs.getLast?.toList,cs.length-rest.length) := by
  unfold loneRun at h
  split at h
  next r' rest' href =>
    cases h
    obtain ⟨ds,hr,rfl,-,href'⟩ := loneRef_some href
    have hrest := loneRun_length n rest'
    have hrlen : r.length=ds.length+1 := by
      rw [← String.length_toList,hr,List.length_cons]
    simp only [List.length_append,List.length_cons] at hn
    rw [List.cons_append] at href' ⊢
    rw [List.cons_append,citation,href',Option.bind_some]
    dsimp only
    rw [citationTail_eq _ n rest' (by simp only [List.length_cons]; omega) (by omega)]
    simp only [Option.map_some,Option.some_inj,Prod.mk.injEq,List.length_cons,List.length_append,
      true_and]
    omega
  next => cases h

theorem citation_of_none (h : loneRef cs=none) : citation cs=none := by
  unfold citation
  split
  next ds =>
    cases href : evidenceRef ds with
    | none => rfl
    | some p =>
      obtain ⟨r,rest⟩ := p
      rw [Option.bind_some]
      dsimp only
      cases rest with
      | nil => simp [citationTail_nil]
      | cons c rest =>
        by_cases hc : c = ']'
        · subst hc
          rw [loneRef,href] at h
          cases h
        · rw [citationTail_of_ne hc]
          rfl
  next => rfl

theorem cited_drop (n : ℕ) (cs : List Char) : cited n cs=cited 0 (cs.drop n) := by
  induction cs generalizing n with
  | nil => cases n <;> simp [cited]
  | cons c cs ih =>
    cases n with
    | zero => rfl
    | succ n =>
      rw [cited,List.drop_succ_cons]
      exact ih n

theorem loneRun_nil (h : (loneRun (n+1) cs).1=[]) : loneRef cs=none := by
  unfold loneRun at h
  split at h
  next => cases h
  next href => exact href

theorem loneRun_lt {rs : List String} (h : loneRun (n+1) cs=(r::rs,rest)) :
    rest.length<cs.length := by
  unfold loneRun at h
  split at h
  next r' rest' href =>
    cases h
    obtain ⟨ds,-,rfl,-,-⟩ := loneRef_some href
    have := loneRun_length n rest'
    simp only [List.length_append,List.length_cons]
    omega
  next => cases h

/-- After a run the pattern goes on where the run ends. -/
theorem cited_of_loneRun {c : Char} {rs : List String} (hn : cs.length<n)
    (h : loneRun (n+1) (c::cs)=(r::rs,rest)) :
    cited 0 (c::cs)=r::rs.getLast?.toList ++ cited 0 rest := by
  have hlen := loneRun_lt h
  have hsuffix := loneRun_suffix (n+1) (c::cs)
  rw [h] at hsuffix
  dsimp only at hsuffix
  rw [List.length_cons] at hlen hsuffix
  rw [cited,citation_of_loneRun (by rw [List.length_cons]; omega) h]
  dsimp only
  rw [cited_drop]
  congr 2
  rw [show cs.length+1-rest.length=cs.length-rest.length+1 by omega,List.drop_succ_cons] at hsuffix
  rw [List.length_cons,show cs.length+1-rest.length-1=cs.length-rest.length by omega]
  exact hsuffix.symm

theorem mem_cons_iff_getLast (x r : String) (rs : List String) :
    x ∈ r::rs ↔ x ∈ r::rs.getLast?.toList ∨ x ∈ rs.dropLast := by
  obtain rfl | ⟨init,last,rfl⟩ := List.eq_nil_or_concat rs
  · simp
  · simp only [List.concat_eq_append,List.mem_cons,List.mem_append,List.getLast?_concat,
      Option.toList_some,List.dropLast_concat,List.not_mem_nil,or_false]
    tauto

/-- A reference inside brackets is held on to by the pattern or passed over. -/
theorem mem_bracketed_iff (x : String) : ∀ n d cs, cs.length<n →
    (x ∈ bracketed d cs ↔ x ∈ cited 0 cs ∨ x ∈ passedOver n d cs)
  | 0, _, _, h => absurd h (by omega)
  | _+1, _, [], _ => by simp [bracketed,cited,passedOver]
  | n+1, d, c::cs, h => by
    rw [List.length_cons] at h
    unfold passedOver
    split
    next r rs rest hrun =>
      have hlen := loneRun_lt hrun
      rw [List.length_cons] at hlen
      rw [bracketed_loneRun d (n+1) (c::cs),hrun,cited_of_loneRun (by omega) hrun,List.mem_append,
        List.mem_append,List.mem_append,mem_bracketed_iff x n d rest (by omega),
        mem_cons_iff_getLast]
      tauto
    next rest hrun =>
      have hlone : loneRef (c::cs)=none := loneRun_nil (by rw [hrun])
      have hcite : cited 0 (c::cs)=cited 0 cs := by
        rw [cited,citation_of_none hlone]
      rw [hcite,bracketed]
      split_ifs
      · exact mem_bracketed_iff x n _ cs (by omega)
      · exact mem_bracketed_iff x n _ cs (by omega)
      · exact mem_bracketed_iff x n _ cs (by omega)
      · rw [List.nil_append,List.nil_append]
        exact mem_bracketed_iff x n _ cs (by omega)
      · rw [List.mem_append,List.mem_append,mem_bracketed_iff x n d cs (by omega)]
        tauto

end

/-! ### Accepted outputs -/

/-- The reasons that are read of an output. -/
def readReasons : Value → List String
  | .obj o => (strArray (field o "reasons") "reasons" 6).1
  | _ => []

/-- Every reference in brackets and every listed one is registered, and each reason cites one. -/
def Judgment.Sourced (validRefs : List String) (j : Judgment) : Prop :=
  (∀ reason ∈ j.reasons, (∀ r ∈ bracketed 0 reason.toList, r ∈ validRefs) ∧
    ∃ r ∈ bracketed 0 reason.toList, r ∈ validRefs) ∧ ∀ r ∈ j.evidenceRefs, r ∈ validRefs

/-- Behind a bracket, and before the one that closes it, a reference stands in the text. -/
def Cites (cs : List Char) (r : String) : Prop := ∃ before inside rest, cs=before ++ '['::(inside ++ rest) ∧
  closes 0 inside=false ∧ closes 0 (inside ++ rest)=true ∧ (evidenceRef rest).map Prod.fst=some r

/-- The pattern passes over no unregistered reference of the reason, and some reference of it stands between
a bracket and the one that closes it. -/
def WellCited (validRefs : List String) (reason : String) : Prop :=
  (∀ r ∈ passedOver (reason.toList.length+1) 0 reason.toList, r ∈ validRefs) ∧ ∃ r, Cites reason.toList r

/-- A reference of the text stands before the bracket that closes the outermost of those around it. -/
def Enclosed (d : ℕ) (cs : List Char) (r : String) : Prop := ∃ inside rest, cs=inside ++ rest ∧ 0<d ∧
  closes (d-1) inside=false ∧ (evidenceRef rest).map Prod.fst=some r

section
variable {cs : List Char} {c : Char} {r : String} {d m n : ℕ}

theorem closes_mono (hmn : m ≤ n) (h : closes n cs=true) : closes m cs=true := by
  induction cs generalizing m n with
  | nil => exact h
  | cons c cs ih =>
    unfold closes at h ⊢
    split at h
    · next hopen => rw [if_pos hopen]; exact ih (Nat.succ_le_succ hmn) h
    · next hopen =>
      rw [if_neg hopen]
      split at h
      · next hclose =>
        rw [if_pos hclose,Bool.or_eq_true,decide_eq_true_eq] at *
        rcases Nat.eq_zero_or_pos m with hm | hm
        · exact .inl hm
        · exact .inr (ih (Nat.sub_le_sub_right hmn 1) (h.resolve_left (by omega)))
      · next hclose => rw [if_neg hclose]; exact ih hmn h

theorem evidenceRef_bracket (hc : c= '[' ∨ c= ']') : evidenceRef (c::cs)=none :=
  evidenceRef_of_ne c (by rcases hc with rfl | rfl <;> decide)

/-- Only an opening bracket has a reference behind it that is not behind another one. -/
theorem cites_cons (hc : c ≠ '[') : Cites (c::cs) r ↔ Cites cs r := by
  constructor
  · rintro ⟨before,inside,rest,hcs,h⟩
    cases before with
    | nil => cases hcs; exact absurd rfl hc
    | cons b before => cases hcs; exact ⟨before,inside,rest,rfl,h⟩
  · rintro ⟨before,inside,rest,rfl,h⟩
    exact ⟨c::before,inside,rest,rfl,h⟩

theorem cites_open : Cites ('['::cs) r ↔ (closes 0 cs=true ∧ Enclosed 1 cs r) ∨ Cites cs r := by
  constructor
  · rintro ⟨before,inside,rest,hcs,hin,hclose,href⟩
    cases before with
    | nil => cases hcs; exact .inl ⟨hclose,inside,rest,rfl,Nat.one_pos,hin,href⟩
    | cons b before => cases hcs; exact .inr ⟨before,inside,rest,rfl,hin,hclose,href⟩
  · rintro (⟨hclose,inside,rest,rfl,-,hin,href⟩ | ⟨before,inside,rest,rfl,h⟩)
    · exact ⟨[],inside,rest,rfl,hin,hclose,href⟩
    · exact ⟨'['::before,inside,rest,rfl,h⟩

theorem enclosed_open : Enclosed d ('['::cs) r ↔ 0<d ∧ Enclosed (d+1) cs r := by
  constructor
  · rintro ⟨inside,rest,hcs,hd,hin,href⟩
    cases inside with
    | nil =>
      rw [← List.nil_append rest,← hcs,evidenceRef_bracket (.inl rfl)] at href
      cases href
    | cons b inside =>
      cases hcs
      rw [closes,if_pos rfl,Nat.sub_add_cancel hd] at hin
      exact ⟨hd,inside,rest,rfl,Nat.succ_pos d,hin,href⟩
  · rintro ⟨hd,inside,rest,rfl,-,hin,href⟩
    refine ⟨'['::inside,rest,rfl,hd,?_,href⟩
    rw [closes,if_pos rfl,Nat.sub_add_cancel hd]
    exact hin

theorem enclosed_close : Enclosed d (']'::cs) r ↔ Enclosed (d-1) cs r := by
  constructor
  · rintro ⟨inside,rest,hcs,hd,hin,href⟩
    cases inside with
    | nil =>
      rw [← List.nil_append rest,← hcs,evidenceRef_bracket (.inr rfl)] at href
      cases href
    | cons b inside =>
      cases hcs
      rw [closes,if_neg (by decide),if_pos rfl,Bool.or_eq_false_iff,decide_eq_false_iff_not] at hin
      exact ⟨inside,rest,rfl,Nat.pos_of_ne_zero hin.1,hin.2,href⟩
  · rintro ⟨inside,rest,rfl,hd,hin,href⟩
    refine ⟨']'::inside,rest,rfl,by omega,?_,href⟩
    rw [closes,if_neg (by decide),if_pos rfl,Bool.or_eq_false_iff,decide_eq_false_iff_not]
    exact ⟨hd.ne',hin⟩

theorem enclosed_cons (h₁ : c ≠ '[') (h₂ : c ≠ ']') :
    Enclosed d (c::cs) r ↔ (0<d ∧ (evidenceRef (c::cs)).map Prod.fst=some r) ∨ Enclosed d cs r := by
  constructor
  · rintro ⟨inside,rest,hcs,hd,hin,href⟩
    cases inside with
    | nil => exact .inl ⟨hd,hcs ▸ href⟩
    | cons b inside =>
      cases hcs
      rw [closes,if_neg h₁,if_neg h₂] at hin
      exact .inr ⟨inside,rest,rfl,hd,hin,href⟩
  · rintro (⟨hd,href⟩ | ⟨inside,rest,rfl,hd,hin,href⟩)
    · exact ⟨[],c::cs,rfl,hd,rfl,href⟩
    · refine ⟨c::inside,rest,rfl,hd,?_,href⟩
      rw [closes,if_neg h₁,if_neg h₂]
      exact hin

theorem Enclosed.mono (hmn : m ≤ n) (hm : 0 < m) (h : Enclosed m cs r) : Enclosed n cs r := by
  obtain ⟨inside,rest,hcs,-,hin,href⟩ := h
  refine ⟨inside,rest,hcs,hm.trans_le hmn,?_,href⟩
  by_contra hclose
  rw [closes_mono (Nat.sub_le_sub_right hmn 1) (by simpa using hclose)] at hin
  cases hin

/-- What is inside brackets stands before the end of one around the text, or is cited in it. -/
theorem mem_bracketed (h : 0<d → closes (d-1) cs=true) : r ∈ bracketed d cs ↔ Enclosed d cs r ∨ Cites cs r := by
  induction cs generalizing d with
  | nil =>
    refine iff_of_false (by simp [bracketed]) ?_
    rintro (⟨inside,rest,hcs,-,-,href⟩ | ⟨before,_,_,hcs,-⟩)
    · obtain ⟨rfl,rfl⟩ := List.nil_eq_append_iff.mp hcs
      cases href
    · cases before <;> cases hcs
  | cons c cs ih =>
    unfold bracketed
    split
    · next hopen =>
      subst hopen
      rw [cites_open,enclosed_open]
      split
      · next hclose =>
        -- the bracket closes, so one more is around what follows
        have hinner : closes d cs=true := by
          rcases Nat.eq_zero_or_pos d with rfl | hd
          · exact hclose
          · have := h hd
            rwa [closes,if_pos rfl,Nat.sub_add_cancel hd] at this
        rw [ih (d := d+1) fun _ => hinner]
        have hone : Enclosed 1 cs r → Enclosed (d+1) cs r := .mono (by omega) Nat.one_pos
        rcases Nat.eq_zero_or_pos d with rfl | hd
        · simp [hclose]
        · simp only [hd,hclose,true_and]
          tauto
      · next hclose =>
        have hzero : d=0 := by
          by_contra hd
          have := h (Nat.pos_of_ne_zero hd)
          rw [closes,if_pos rfl] at this
          exact hclose (closes_mono (Nat.zero_le _) this)
        subst hzero
        rw [ih fun hd => absurd hd (lt_irrefl 0)]
        have hnone : ¬Enclosed 0 cs r := fun ⟨_,_,_,hd,_⟩ => absurd hd (lt_irrefl 0)
        simp [hnone,hclose]
    · next hopen =>
      rw [cites_cons hopen]
      split
      · next hclose =>
        subst hclose
        rw [enclosed_close,ih fun hd => ?_]
        have := h (by omega)
        rw [closes,if_neg (by decide),if_pos rfl,Bool.or_eq_true,decide_eq_true_eq] at this
        exact this.resolve_left hd.ne'
      · next hclose =>
        have hrest : 0<d → closes (d-1) cs=true := fun hd => by
          have := h hd
          rwa [closes,if_neg hopen,if_neg hclose] at this
        rw [List.mem_append,ih hrest,enclosed_cons hopen hclose]
        rcases Nat.eq_zero_or_pos d with rfl | hd
        · simp
        · rw [if_neg hd.ne',Option.mem_toList,or_assoc]
          simp only [hd,true_and]

/-- The references inside brackets are those that stand between a bracket and the one that closes it. -/
theorem mem_bracketed_zero : r ∈ bracketed 0 cs ↔ Cites cs r := by
  rw [mem_bracketed fun h => absurd h (lt_irrefl 0)]
  exact or_iff_right fun ⟨_,_,_,hd,_⟩ => absurd hd (lt_irrefl 0)

end

section
variable {raw : Value} {validRefs allowed errors : List String} {j : Judgment}

theorem accepted_clean {errs : List String} {o : Option Judgment}
    (h : accepted errs o=(some j,errors)) : errs=[] ∧ o=some j := by
  unfold accepted at h
  split at h
  next hnil => exact ⟨hnil,congrArg Prod.fst h⟩
  next => cases h

theorem cited_of_reasonError {i : ℕ} {reason : String} (h : reasonError validRefs i reason=none) :
    ∀ r ∈ cited 0 reason.toList, r ∈ validRefs := by
  unfold reasonError at h
  split at h
  next => cases h
  next =>
    split at h
    next => cases h
    next hall =>
      intro r hr
      by_contra hnot
      exact hall ⟨r,hr,hnot⟩

/-- What an accepted output was checked for. -/
theorem validateJudgment_checked (h : validateJudgment raw validRefs allowed=.ok (some j,errors)) :
    j.reasons=readReasons raw ∧
    (∀ reason ∈ j.reasons, ∀ r ∈ cited 0 reason.toList, r ∈ validRefs) ∧
    ∀ r ∈ j.evidenceRefs, r ∈ validRefs := by
  unfold validateJudgment at h
  split at h
  next o =>
    extract_lets action direction headline thesis reasons refs badRefs invalidation invalidationPrice
      targetPrice watch proposal at h
    obtain ⟨c,-,h⟩ := Machine.bind_ok.mp h
    extract_lets errs judgment at h
    obtain ⟨herrs,hj⟩ := accepted_clean (Except.ok.inj h)
    simp only [errs,List.append_eq_nil_iff] at herrs
    obtain ⟨⟨⟨⟨⟨⟨⟨⟨⟨⟨⟨-,hbad⟩,-⟩,hreason⟩,-⟩,-⟩,-⟩,-⟩,-⟩,-⟩,-⟩,-⟩ := herrs
    have hbadRefs : badRefs=[] := by
      by_contra hne
      rw [if_pos hne] at hbad
      cases hbad
    clear_value action
    have hj' : j.reasons=reasons.1 ∧ j.evidenceRefs=refs.1 := by
      simp only [judgment] at hj
      split at hj
      next =>
        cases hj
        exact ⟨rfl,rfl⟩
      next => cases hj
    rw [hj'.1,hj'.2]
    refine ⟨rfl,?_,?_⟩
    · intro reason hr
      obtain ⟨i,hi⟩ := List.mem_iff_getElem?.mp hr
      have hmem : (reason,i) ∈ reasons.1.zipIdx := List.mk_mem_zipIdx_iff_getElem?.mpr hi
      exact cited_of_reasonError (List.filterMap_eq_nil_iff.mp hreason _ hmem)
    · intro r hr
      by_contra hnot
      have hmem : r ∈ badRefs := List.mem_filter.mpr ⟨hr,decide_eq_true hnot⟩
      rw [hbadRefs] at hmem
      cases hmem
  next => cases h

/-- An accepted judgment is sourced exactly when its reasons are well cited. -/
theorem sourced_iff (h : validateJudgment raw validRefs allowed=.ok (some j,errors)) :
    j.Sourced validRefs ↔ ∀ reason ∈ readReasons raw, WellCited validRefs reason := by
  obtain ⟨hreasons,hcited,hrefs⟩ := validateJudgment_checked h
  have hmem : ∀ (reason : String) r, r ∈ bracketed 0 reason.toList ↔ r ∈ cited 0 reason.toList ∨
      r ∈ passedOver (reason.toList.length+1) 0 reason.toList := fun reason r =>
    mem_bracketed_iff r _ 0 _ (Nat.lt_succ_self _)
  rw [← hreasons]
  constructor
  · rintro ⟨hall,-⟩ reason hr
    obtain ⟨hregistered,r,hb,-⟩ := hall reason hr
    exact ⟨fun r hpass => hregistered r ((hmem reason r).mpr (.inr hpass)),r,mem_bracketed_zero.mp hb⟩
  · intro hall
    refine ⟨fun reason hr => ?_,hrefs⟩
    have hregistered : ∀ r ∈ bracketed 0 reason.toList, r ∈ validRefs := fun r hb => by
      obtain hc | hp := (hmem reason r).mp hb
      · exact hcited reason hr r hc
      · exact (hall reason hr).1 r hp
    obtain ⟨r,hr'⟩ := (hall reason hr).2
    have hb := mem_bracketed_zero.mpr hr'
    exact ⟨hregistered,r,hb,hregistered r hb⟩

end

/-- An output that cites with the given reason, where two references are registered. -/
def outputCiting (reason : String) : Value := .obj
  [("action",.str "NO_TRADE"),("confidence",.num (.fin (1/5))),("headline",.str "flat"),
    ("thesis",.str "no edge"),("reasons",.arr [.str reason]),("evidence_refs",.arr [.str "E1"])]

/-- A reference in the middle of a run need not be registered. -/
theorem fabricated_accepted : ¬∀ (raw : Value) (validRefs allowed errors : List String) (j : Judgment),
    validateJudgment raw validRefs allowed=.ok (some j,errors) → j.Sourced validRefs := by
  intro hall
  obtain ⟨j,hj,hreasons⟩ : ∃ j, validateJudgment (outputCiting "range [E1][E99][E2]") ["E1","E2"] []=
      .ok (some j,[]) ∧ j.reasons=["range [E1][E99][E2]"] :=
    ⟨_,rfl,by decide +kernel⟩
  have hbad := ((hall _ _ _ _ j hj).1 "range [E1][E99][E2]" (by rw [hreasons]; simp)).1 "E99"
    (by decide +kernel)
  revert hbad
  decide

theorem sourced_iff_range : ∃ j errors, validateJudgment (outputCiting "range [E1][E2]") ["E1","E2"] []=
    .ok (some j,errors) ∧ (j.Sourced ["E1","E2"] ↔
      ∀ reason ∈ readReasons (outputCiting "range [E1][E2]"), WellCited ["E1","E2"] reason) :=
  ⟨_,_,rfl,sourced_iff rfl⟩

end TradeGate
