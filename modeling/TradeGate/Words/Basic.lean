import Mathlib.Algebra.BigOperators.Group.List.Basic
import Mathlib.Computability.Language
import Mathlib.Data.List.Infix

/-! The first place where a word stands in a text. -/
namespace Words

variable {α : Type} {w cs : List α}

theorem not_infix_dropLast (hw : w ≠ []) : ¬w <:+: w.dropLast := by
  intro h
  have hle := h.length_le
  have hpos := List.length_pos_iff.mpr hw
  rw [List.length_dropLast] at hle
  omega

/-- A word that begins within a text begins within the text and most of the word. -/
theorem prefix_append_dropLast {bs as : List α} {c : α} (h : w <+: c::bs ++ (w ++ as)) : w <+: c::bs ++ w.dropLast := by
  refine List.prefix_of_prefix_length_le h ?_ ?_
  · exact (List.prefix_append_right_inj _).mpr ((List.dropLast_prefix w).trans (List.prefix_append w as))
  · rw [List.length_append,List.length_cons,List.length_dropLast]
    omega

variable [DecidableEq α] {p : List α × List α}

/-- What stands before the first place of a word, and what follows it. -/
def splitFirst (w : List α) : List α → Option (List α × List α)
  | [] => if w=[] then some ([],[]) else none
  | c::cs =>
    if w <+: c::cs then some ([],(c::cs).drop w.length)
    else (splitFirst w cs).map fun p => (c::p.1,p.2)

/-- The place is the first one: the word does not even begin before it. -/
theorem splitFirst_some (hw : w ≠ []) : splitFirst w cs=some p ↔
    cs=p.1 ++ (w ++ p.2) ∧ ¬w <:+: p.1 ++ w.dropLast := by
  obtain ⟨before,after⟩ := p
  dsimp only
  induction cs generalizing before with
  | nil => simp [splitFirst,hw]
  | cons c cs ih =>
    unfold splitFirst
    split
    · next hpre =>
      rw [Option.some_inj,Prod.mk.injEq]
      constructor
      · rintro ⟨rfl,rfl⟩
        obtain ⟨rest,hrest⟩ := hpre
        refine ⟨?_,not_infix_dropLast hw⟩
        rw [← hrest,List.drop_left]
        rfl
      · rintro ⟨heq,hnot⟩
        cases before with
        | nil =>
          rw [heq,List.nil_append,List.drop_left]
          exact ⟨rfl,rfl⟩
        | cons b bs =>
          rw [heq] at hpre
          exact absurd (prefix_append_dropLast hpre).isInfix hnot
    · next hpre =>
      rw [Option.map_eq_some_iff]
      constructor
      · rintro ⟨⟨bs,as⟩,hsplit,heq⟩
        cases heq
        obtain ⟨hcs,hnot⟩ := (ih bs).mp hsplit
        refine ⟨by rw [hcs]; rfl,fun h => ?_⟩
        rw [List.cons_append,List.infix_cons_iff] at h
        rcases h with h | h
        · refine hpre (h.trans ?_)
          rw [hcs,← List.cons_append,← List.cons_append]
          exact (List.prefix_append_right_inj _).mpr ((List.dropLast_prefix w).trans (List.prefix_append w _))
        · exact hnot h
      · rintro ⟨heq,hnot⟩
        cases before with
        | nil =>
          rw [heq] at hpre
          exact absurd (List.prefix_append w after) hpre
        | cons b bs =>
          obtain ⟨rfl,htail⟩ := List.cons.inj heq
          exact ⟨(bs,after),(ih bs).mpr ⟨htail,fun h => hnot (List.infix_cons h)⟩,rfl⟩

end Words

/-! Languages made of classes of letters: which words are in their powers, stars and products. -/
namespace Words
open scoped Computability

variable {α : Type} {p q : α → Bool} {w : List α} {n : ℕ} {K L : Language α}

/-- The words of one letter of the class. -/
def one (p : α → Bool) : Language α := fun w => ∃ c, p c=true ∧ w=[c]

/-- A word of the language, or nothing. -/
def optional (L : Language α) : Language α := 1+L

/-- One word of the language or more. -/
def many1 (L : Language α) : Language α := L*L∗

/-- From `m` to `m+n` words of the language. -/
def between (m : ℕ) : ℕ → Language α → Language α
  | 0, L => L^m
  | n+1, L => between m n L+L^(m+n+1)

theorem mem_one_mul : w ∈ one p*L ↔ ∃ c cs, p c=true ∧ cs ∈ L ∧ w=c::cs := by
  rw [Language.mem_mul]
  constructor
  · rintro ⟨_,⟨c,hc,rfl⟩,cs,hcs,rfl⟩
    exact ⟨c,cs,hc,hcs,rfl⟩
  · rintro ⟨c,cs,hc,hcs,rfl⟩
    exact ⟨[c],⟨c,hc,rfl⟩,cs,hcs,rfl⟩

theorem cons_mem_one_mul {c : α} : c::w ∈ one p*L ↔ p c=true ∧ w ∈ L := by
  rw [mem_one_mul]
  constructor
  · rintro ⟨d,ds,hd,hds,heq⟩
    cases heq
    exact ⟨hd,hds⟩
  · rintro ⟨hc,hw⟩
    exact ⟨c,w,hc,hw,rfl⟩

theorem nil_not_mem_one_mul : [] ∉ one p*L := by
  rw [mem_one_mul]
  rintro ⟨c,cs,_,_,h⟩
  cases h

theorem mem_one_pow : w ∈ one p^n ↔ w.length=n ∧ ∀ c ∈ w, p c=true := by
  induction n generalizing w with
  | zero => simp +contextual [List.length_eq_zero_iff]
  | succ n ih =>
    rw [pow_succ']
    cases w with
    | nil => simpa using nil_not_mem_one_mul
    | cons c w =>
      rw [cons_mem_one_mul,ih,List.forall_mem_cons,List.length_cons,Nat.succ_inj]
      tauto

theorem mem_one_star : w ∈ (one p)∗ ↔ ∀ c ∈ w, p c=true := by
  rw [Language.kstar_eq_iSup_pow,Language.mem_iSup]
  constructor
  · rintro ⟨n,h⟩
    exact (mem_one_pow.mp h).2
  · intro h
    exact ⟨w.length,mem_one_pow.mpr ⟨rfl,h⟩⟩

theorem mem_many1 : w ∈ many1 (one p) ↔ w ≠ [] ∧ ∀ c ∈ w, p c=true := by
  unfold many1
  cases w with
  | nil => simpa using nil_not_mem_one_mul
  | cons c w =>
    rw [cons_mem_one_mul,mem_one_star,List.forall_mem_cons]
    simp

theorem mem_optional : w ∈ optional L ↔ w=[] ∨ w ∈ L := by
  rw [optional,Language.mem_add,Language.mem_one]

theorem mem_optional_mul : w ∈ optional K*L ↔ w ∈ L ∨ w ∈ K*L := by
  change w ∈ (1+K)*L ↔ _
  rw [add_mul,one_mul,Language.mem_add]

theorem mem_between {m : ℕ} : w ∈ between m n (one p) ↔ (m ≤ w.length ∧ w.length ≤ m+n) ∧ ∀ c ∈ w, p c=true := by
  induction n with
  | zero =>
    rw [between,mem_one_pow]
    refine and_congr_left fun _ => ?_
    omega
  | succ n ih =>
    rw [between,Language.mem_add,ih,mem_one_pow,← or_and_right]
    refine and_congr_left fun _ => ?_
    omega

/-- A word of a product of classes has one letter of each. -/
theorem mem_prod {ps : List (α → Bool)} : w ∈ (ps.map one).prod ↔ List.Forall₂ (fun p c => p c=true) ps w := by
  induction ps generalizing w with
  | nil =>
    rw [List.map_nil,List.prod_nil,Language.mem_one]
    simp
  | cons p ps ih =>
    rw [List.map_cons,List.prod_cons]
    cases w with
    | nil => simpa using nil_not_mem_one_mul
    | cons c w => rw [cons_mem_one_mul,ih,List.forall₂_cons]

theorem one_pow_eq_prod : one p^n=((List.replicate n p).map one).prod := by
  rw [List.map_replicate,List.prod_replicate]

end Words
