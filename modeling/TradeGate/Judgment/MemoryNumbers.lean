import Mathlib.Data.List.TakeWhile
import TradeGate.Js.Pattern
import TradeGate.Model.Judgment

/-! Remembered numbers in a judgment.  A number token is looked for among the tokens of the memory
evidence, but as a mere part of the text of the live evidence. -/
namespace TradeGate
open Js

structure Evidence where
  kind : String
  value : String
deriving DecidableEq

/-- The next character belongs to a word. -/
def startsWord (cs : List Char) : Bool := cs.head?.any Pattern.isWord

/-- `\d{3,}(?:\.\d+)?(?![\w])` at the start of the text.  Only the whole run of digits can match, and a
fraction that runs into a word is left out. -/
def numberAt (cs : List Char) : Option String :=
  let ds := cs.takeWhile Char.isDigit
  let rest := cs.dropWhile Char.isDigit
  if ds.length<3 then none
  else match rest with
    | '.'::more =>
      let fs := more.takeWhile Char.isDigit
      some (String.ofList
        (if fs ≠ [] ∧ ¬startsWord (more.dropWhile Char.isDigit) then ds ++ '.'::fs else ds))
    | _ => if startsWord rest then none else some (String.ofList ds)

/-- All matches; `inside` says that the character before is in `[\w.]`, as it is within a match. -/
def numbersFrom : Bool → List Char → List String
  | _, [] => []
  | inside, c::cs =>
    (if inside then [] else (numberAt (c::cs)).toList) ++ numbersFrom (Pattern.isWord c || c = '.') cs

/-- The tokens of `NUM_RE`. -/
def numbersIn (s : String) : List String := numbersFrom false s.toList

def leakNote (n : String) : String :=
  "数字 " ++ n ++ " 只出现在记忆证据里,不是现场行情,不能写进 reasons/thesis(规则 4b)"

/-- `values.join(' ')`. -/
def joined (values : List String) : String := " ".intercalate values

/-- `s.includes(n)`. -/
def includes (s n : String) : Prop := n.toList <:+: s.toList

instance (s n : String) : Decidable (includes s n) := inferInstanceAs (Decidable (_ <:+: _))

def findMemoryNumberLeaks (j : Judgment) (evidence : List Evidence) : List String :=
  let memEv := evidence.filter fun e => e.kind="memory"
  if memEv=[] then []
  else
    let nonMem := joined ((evidence.filter fun e => e.kind ≠ "memory").map Evidence.value)
    let memNums := numbersIn (joined (memEv.map Evidence.value))
    if memNums=[] then []
    else
      (((j.reasons ++ [j.thesis]).flatMap numbersIn).filter fun n =>
        n ∈ memNums ∧ ¬includes nonMem n).map leakNote |>.eraseDups

section
variable {xs ys cs : List Char} {n : String} {b : Bool}

theorem takeWhile_space (xs ys : List Char) :
    (xs ++ ' '::ys).takeWhile Char.isDigit=xs.takeWhile Char.isDigit := by
  induction xs with
  | nil => rfl
  | cons c xs ih =>
    rw [List.cons_append,List.takeWhile_cons,List.takeWhile_cons,ih]

theorem dropWhile_space (xs ys : List Char) :
    (xs ++ ' '::ys).dropWhile Char.isDigit=xs.dropWhile Char.isDigit ++ ' '::ys := by
  induction xs with
  | nil => rfl
  | cons c xs ih =>
    rw [List.cons_append,List.dropWhile_cons,List.dropWhile_cons,ih]
    split <;> rfl

theorem startsWord_space (xs ys : List Char) : startsWord (xs ++ ' '::ys)=startsWord xs := by
  cases xs <;> rfl

/-- What follows a space does not matter to a token before it. -/
theorem numberAt_space (xs ys : List Char) : numberAt (xs ++ ' '::ys)=numberAt xs := by
  unfold numberAt
  simp only [takeWhile_space,dropWhile_space]
  split
  next => rfl
  next =>
    cases xs.dropWhile Char.isDigit with
    | nil => rfl
    | cons c rest =>
      by_cases hc : c = '.'
      · subst hc
        simp only [List.cons_append,takeWhile_space,dropWhile_space,startsWord_space]
      · have hstart := startsWord_space (c::rest) ys
        rw [List.cons_append] at hstart ⊢
        simp only [hstart]
        split
        next heq => exact absurd (List.cons.inj heq).1 hc
        next =>
          split
          all_goals
            split
            next heq => exact absurd (List.cons.inj heq).1 hc
            next => rfl

theorem numbersFrom_space (b : Bool) (xs ys : List Char) :
    numbersFrom b (xs ++ ' '::ys)=numbersFrom b xs ++ numbersFrom false ys := by
  induction xs generalizing b with
  | nil => cases b <;> rfl
  | cons c xs ih =>
    have hat := numberAt_space (c::xs) ys
    rw [List.cons_append] at hat ⊢
    rw [numbersFrom,numbersFrom,ih,hat,List.append_assoc]

theorem joined_cons_cons (v w : String) (vs : List String) :
    (joined (v::w::vs)).toList=v.toList ++ ' '::(joined (w::vs)).toList := by
  simp [joined,String.intercalate_cons_cons]

/-- The tokens of the joined text are those of its parts. -/
theorem mem_numbersIn_joined {vs : List String} :
    n ∈ numbersIn (joined vs) ↔ ∃ v ∈ vs, n ∈ numbersIn v := by
  induction vs with
  | nil => simp [joined,numbersIn,numbersFrom]
  | cons v vs ih =>
    cases vs with
    | nil => simp [joined]
    | cons w vs =>
      rw [numbersIn,joined_cons_cons,numbersFrom_space,List.mem_append]
      rw [numbersIn] at ih
      rw [ih,List.exists_mem_cons_iff (l := w::vs),numbersIn]

/-- A run without spaces lies on one side of a space. -/
theorem infix_space {ns : List Char} (hne : ns ≠ []) (hspace : ' ' ∉ ns) :
    ns <:+: xs ++ ' '::ys ↔ ns <:+: xs ∨ ns <:+: ys := by
  have hright : ¬∃ l₁ l₂, l₁ ≠ [] ∧ l₂ ≠ [] ∧ ns=l₁ ++ l₂ ∧ l₁ <:+ xs ∧ l₂ <+: ' '::ys := by
    rintro ⟨l₁,l₂,-,hl₂,rfl,-,h⟩
    cases l₂ with
    | nil => exact hl₂ rfl
    | cons c l₂ =>
      rw [List.cons_prefix_cons] at h
      exact hspace (List.mem_append_right l₁ (h.1 ▸ List.mem_cons_self))
  have hleft : ns <:+: ' '::ys ↔ ns <:+: ys := by
    rw [List.infix_cons_iff]
    constructor
    · rintro (h | h)
      · cases ns with
        | nil => exact absurd rfl hne
        | cons c ns =>
          rw [List.cons_prefix_cons] at h
          exact absurd (h.1 ▸ List.mem_cons_self) hspace
      · exact h
    · exact Or.inr
  rw [List.infix_append_iff_ne_nil,hleft,or_iff_left hright]

/-- A part of the joined text that is not empty and has no space is a part of one of its parts. -/
theorem includes_joined {vs : List String} (hne : n.toList ≠ []) (hspace : ' ' ∉ n.toList) :
    includes (joined vs) n ↔ ∃ v ∈ vs, includes v n := by
  induction vs with
  | nil => simp [joined,includes,hne]
  | cons v vs ih =>
    cases vs with
    | nil => simp [joined]
    | cons w vs =>
      rw [List.exists_mem_cons_iff,←ih,includes,includes,includes,joined_cons_cons]
      rw [infix_space hne hspace]

theorem numberAt_some (h : numberAt cs=some n) :
    n.toList <+: cs ∧ 3 ≤ n.toList.length ∧ ∀ c ∈ n.toList, c.isDigit ∨ c = '.' := by
  have hcs := List.takeWhile_append_dropWhile (p := Char.isDigit) (l := cs)
  have hdigit : ∀ ds : List Char, ∀ c ∈ ds.takeWhile Char.isDigit, c.isDigit ∨ c = '.' :=
    fun _ _ hc => .inl (List.mem_takeWhile_imp hc)
  unfold numberAt at h
  dsimp only at h
  split at h
  next => cases h
  next hlen =>
    split at h
    next more hmore =>
      rw [hmore] at hcs
      split at h
      next =>
        cases h
        rw [String.toList_ofList]
        refine ⟨?_,by simp; omega,?_⟩
        · have hmore := List.takeWhile_append_dropWhile (p := Char.isDigit) (l := more)
          refine ⟨more.dropWhile Char.isDigit,?_⟩
          rw [List.append_assoc,List.cons_append,hmore,hcs]
        · intro c hc
          rcases List.mem_append.mp hc with hc | hc
          · exact hdigit _ c hc
          · rcases List.mem_cons.mp hc with rfl | hc
            · exact .inr rfl
            · exact hdigit _ c hc
      next =>
        cases h
        rw [String.toList_ofList]
        exact ⟨⟨_,hcs⟩,by omega,hdigit _⟩
    next =>
      split at h
      next => cases h
      next =>
        cases h
        rw [String.toList_ofList]
        exact ⟨⟨_,hcs⟩,by omega,hdigit _⟩

/-- A token is a part of its text, is not empty and has no space. -/
theorem mem_numbersFrom (h : n ∈ numbersFrom b cs) :
    n.toList <:+: cs ∧ n.toList ≠ [] ∧ ' ' ∉ n.toList := by
  induction cs generalizing b with
  | nil => cases h
  | cons c cs ih =>
    rw [numbersFrom,List.mem_append] at h
    rcases h with h | h
    · split at h
      next => cases h
      next =>
        obtain ⟨hstart,hlen,hall⟩ := numberAt_some (Option.mem_toList.mp h)
        refine ⟨hstart.isInfix,List.ne_nil_of_length_pos (by omega),?_⟩
        intro hspace
        exact absurd (hall ' ' hspace) (by decide)
    · obtain ⟨hpart,hne,hspace⟩ := ih h
      exact ⟨List.infix_cons hpart,hne,hspace⟩

theorem includes_of_mem {v : String} (h : n ∈ numbersIn v) : includes v n := (mem_numbersFrom h).1

theorem leakNote_inj {m : String} : leakNote n=leakNote m ↔ n=m := by
  simp [leakNote,String.append_right_inj,String.append_left_inj]

end

section
variable {j : Judgment} {evidence : List Evidence} {n m : String}

/-- The number stands in a reason or in the thesis, and in the memory evidence. -/
def Remembered (j : Judgment) (evidence : List Evidence) (n : String) : Prop :=
  (∃ t ∈ j.reasons ++ [j.thesis], n ∈ numbersIn t) ∧
    ∃ e ∈ evidence, e.kind="memory" ∧ n ∈ numbersIn e.value

/-- It stands in the live evidence. -/
def Live (evidence : List Evidence) (n : String) : Prop :=
  ∃ e ∈ evidence, e.kind ≠ "memory" ∧ n ∈ numbersIn e.value

/-- What the guard takes for that. -/
def PartOfLive (evidence : List Evidence) (n : String) : Prop :=
  ∃ e ∈ evidence, e.kind ≠ "memory" ∧ includes e.value n

theorem partOfLive_of_live (h : Live evidence n) : PartOfLive evidence n := by
  obtain ⟨e,he,hkind,hn⟩ := h
  exact ⟨e,he,hkind,includes_of_mem hn⟩

theorem mem_memNums : n ∈ numbersIn (joined ((evidence.filter fun e => e.kind="memory").map Evidence.value)) ↔
    ∃ e ∈ evidence, e.kind="memory" ∧ n ∈ numbersIn e.value := by
  rw [mem_numbersIn_joined]
  simp [and_assoc]

theorem includes_nonMem (h : Remembered j evidence n) :
    includes (joined ((evidence.filter fun e => e.kind ≠ "memory").map Evidence.value)) n ↔
      PartOfLive evidence n := by
  obtain ⟨⟨t,-,ht⟩,-⟩ := h
  obtain ⟨-,hne,hspace⟩ := mem_numbersFrom ht
  rw [includes_joined hne hspace,PartOfLive]
  simp [and_assoc]

/-- What is reported, with the tests made in the source's order. -/
theorem mem_leaks : m ∈ findMemoryNumberLeaks j evidence ↔
    ∃ n, Remembered j evidence n ∧ ¬PartOfLive evidence n ∧ m=leakNote n := by
  unfold findMemoryNumberLeaks
  dsimp only
  split
  next hmem =>
    constructor
    · intro h
      cases h
    · rintro ⟨n,⟨-,e,he,hkind,-⟩,-⟩
      have hin : e ∈ evidence.filter fun e => e.kind="memory" :=
        List.mem_filter.mpr ⟨he,decide_eq_true hkind⟩
      rw [hmem] at hin
      cases hin
  next =>
    split
    next hnums =>
      constructor
      · intro h
        cases h
      · rintro ⟨n,⟨-,hn⟩,-⟩
        rw [← mem_memNums,hnums] at hn
        cases hn
    next =>
      rw [List.mem_eraseDups,List.mem_map]
      constructor
      · rintro ⟨n,hn,rfl⟩
        obtain ⟨htext,htests⟩ := List.mem_filter.mp hn
        obtain ⟨hmem,hpart⟩ := of_decide_eq_true htests
        have hrem : Remembered j evidence n := ⟨List.mem_flatMap.mp htext,mem_memNums.mp hmem⟩
        exact ⟨n,hrem,fun h => hpart ((includes_nonMem hrem).mpr h),rfl⟩
      · rintro ⟨n,hrem,hpart,rfl⟩
        refine ⟨n,List.mem_filter.mpr ⟨List.mem_flatMap.mpr hrem.1,decide_eq_true ⟨?_,?_⟩⟩,rfl⟩
        · exact mem_memNums.mpr hrem.2
        · exact fun h => hpart ((includes_nonMem hrem).mp h)

/-- Nothing is reported but numbers that stand in the memory evidence alone. -/
theorem leaked_of_mem (h : m ∈ findMemoryNumberLeaks j evidence) :
    ∃ n, Remembered j evidence n ∧ ¬Live evidence n ∧ m=leakNote n := by
  obtain ⟨n,hn,hpart,hm⟩ := mem_leaks.mp h
  exact ⟨n,hn,fun hlive => hpart (partOfLive_of_live hlive),hm⟩

/-- The guard reports the numbers that stand in the memory evidence alone, if and only if every
remembered number that is a part of the live evidence stands in it. -/
theorem leaks_iff : (∀ m, m ∈ findMemoryNumberLeaks j evidence ↔
      ∃ n, Remembered j evidence n ∧ ¬Live evidence n ∧ m=leakNote n) ↔
    ∀ n, Remembered j evidence n → PartOfLive evidence n → Live evidence n := by
  constructor
  · intro hall n hn hpart
    by_contra hlive
    obtain ⟨k,-,hnot,hk⟩ := mem_leaks.mp ((hall (leakNote n)).mpr ⟨n,hn,hlive,rfl⟩)
    rw [leakNote_inj] at hk
    exact hnot (hk ▸ hpart)
  · intro hall m
    refine ⟨leaked_of_mem,?_⟩
    rintro ⟨n,hn,hlive,hm⟩
    exact mem_leaks.mpr ⟨n,hn,fun hpart => hlive (hall n hn hpart),hm⟩

end

/-- A judgment that quotes a level. -/
def quotingLevel : Judgment where
  action := .noTrade
  direction := none
  confidence := 1/5
  headline := "flat"
  thesis := "no edge"
  reasons := ["hold above 650 [E1]"]
  evidenceRefs := ["E1"]
  invalidation := none
  invalidationPrice := none
  targetPrice := none
  watchConditions := []
  proposal := none
  strategyId := none

/-- The remembered level is lost in the digits of the live price. -/
theorem level_not_reported : ¬∀ (j : Judgment) (evidence : List Evidence) (m : String),
    m ∈ findMemoryNumberLeaks j evidence ↔
      ∃ n, Remembered j evidence n ∧ ¬Live evidence n ∧ m=leakNote n := by
  intro hall
  have hleak := (hall quotingLevel [⟨"memory","support 650"⟩,⟨"mark","77650.5"⟩] (leakNote "650")).mpr
    ⟨"650",by simp [Remembered]; decide,by simp [Live]; decide,rfl⟩
  revert hleak
  decide

end TradeGate
