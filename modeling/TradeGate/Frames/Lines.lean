import Mathlib.Data.List.Induction
import Mathlib.Data.Nat.Notation

/-! Streams cut into lines.  A stream arrives in chunks, the cuts fall anywhere, and the lines do not
depend on them. -/
namespace Frames

section
variable {α : Type} [DecidableEq α]

/-- The lines that end in a text when `p` stands before it, and the line that stays open. -/
def lines (sep : α) : List α → List α → List (List α) × List α
  | p, [] => ([],p)
  | p, c::cs => if c=sep then (p::(lines sep [] cs).1,(lines sep [] cs).2) else lines sep (p ++ [c]) cs

variable {sep c : α} {p l xs ys : List α}

@[simp] theorem lines_nil : lines sep p []=([],p) := rfl

theorem lines_sep : lines sep p (sep::xs)=(p::(lines sep [] xs).1,(lines sep [] xs).2) := if_pos rfl

theorem lines_cons (h : c ≠ sep) : lines sep p (c::xs)=lines sep (p ++ [c]) xs := if_neg h

/-- A text that follows another one goes on with its open line. -/
theorem lines_append : lines sep p (xs ++ ys)=
    ((lines sep p xs).1 ++ (lines sep (lines sep p xs).2 ys).1,(lines sep (lines sep p xs).2 ys).2) := by
  induction xs generalizing p with
  | nil => simp
  | cons c xs ih =>
    by_cases hc : c=sep
    · subst hc
      rw [List.cons_append,lines_sep,lines_sep,ih]
      rfl
    · rw [List.cons_append,lines_cons hc,lines_cons hc,ih]

theorem lines_of_notMem (h : sep ∉ xs) : lines sep p xs=([],p ++ xs) := by
  induction xs generalizing p with
  | nil => simp
  | cons c xs ih =>
    rw [List.mem_cons,not_or] at h
    rw [lines_cons (Ne.symm h.1),ih h.2,List.append_assoc]
    rfl

/-- An open line may as well be read again. -/
theorem lines_open (h : sep ∉ p) : lines sep [] (p ++ xs)=lines sep p xs := by
  rw [lines_append,lines_of_notMem h]
  rfl

theorem lines_line (h : sep ∉ l) :
    lines sep [] (l ++ sep::xs)=(l::(lines sep [] xs).1,(lines sep [] xs).2) := by
  rw [lines_open h,lines_sep]

theorem notMem_open (h : sep ∉ p) : sep ∉ (lines sep p xs).2 := by
  induction xs generalizing p with
  | nil => exact h
  | cons c xs ih =>
    by_cases hc : c=sep
    · subst hc
      rw [lines_sep]
      exact ih List.not_mem_nil
    · rw [lines_cons hc]
      apply ih
      rw [List.mem_append,List.mem_singleton]
      rintro (hp | rfl)
      · exact h hp
      · exact hc rfl

theorem notMem_line (h : sep ∉ p) (hl : l ∈ (lines sep p xs).1) : sep ∉ l := by
  induction xs generalizing p with
  | nil => cases hl
  | cons c xs ih =>
    by_cases hc : c=sep
    · subst hc
      rw [lines_sep,List.mem_cons] at hl
      rcases hl with rfl | hl
      · exact h
      · exact ih List.not_mem_nil hl
    · rw [lines_cons hc] at hl
      refine ih ?_ hl
      rw [List.mem_append,List.mem_singleton]
      rintro (hp | rfl)
      · exact h hp
      · exact hc rfl

/-- The stream is put together of its lines. -/
theorem lines_flatten (p xs : List α) :
    p ++ xs=((lines sep p xs).1.map (· ++ [sep])).flatten ++ (lines sep p xs).2 := by
  induction xs generalizing p with
  | nil => simp
  | cons c xs ih =>
    by_cases hc : c=sep
    · subst hc
      have h := ih []
      rw [List.nil_append] at h
      rw [lines_sep,List.map_cons,List.flatten_cons,List.append_assoc,← h]
      simp
    · rw [lines_cons hc,← ih (p ++ [c])]
      simp

/-- The lines of the whole stream are no shorter than what is open of them. -/
theorem length_open_le {n : ℕ} (xs ys : List α) (hl : ∀ l ∈ (lines sep p (xs ++ ys)).1, l.length ≤ n)
    (ht : (lines sep p (xs ++ ys)).2.length ≤ n) : (lines sep p xs).2.length ≤ n := by
  rw [lines_append] at hl ht
  generalize (lines sep p xs).2=q at hl ht
  have hl' : ∀ l ∈ (lines sep q ys).1, l.length ≤ n := fun l hmem => hl l (List.mem_append_right _ hmem)
  clear hl
  induction ys generalizing q with
  | nil => exact ht
  | cons c ys ih =>
    by_cases hc : c=sep
    · subst hc
      rw [lines_sep] at hl'
      exact hl' q List.mem_cons_self
    · rw [lines_cons hc] at hl' ht
      have hq := ih (q ++ [c]) ht hl'
      rw [List.length_append] at hq
      omega

/-- Closed lines come back, whatever follows. -/
theorem lines_closed {ls : List (List α)} (h : ∀ l ∈ ls, sep ∉ l) :
    lines sep [] ((ls.map (· ++ [sep])).flatten ++ xs)=(ls ++ (lines sep [] xs).1,(lines sep [] xs).2) := by
  induction ls with
  | nil => rfl
  | cons l ls ih =>
    obtain ⟨hl,hls⟩ := List.forall_mem_cons.mp h
    rw [List.map_cons,List.flatten_cons,List.append_assoc,List.append_assoc,List.singleton_append,
      lines_line hl,ih hls,List.cons_append]

/-- A stream can be cut so that a given part of its open line is open. -/
theorem exists_cut_open (sep : α) (xs : List α) (n : ℕ) : ∃ ys zs, xs=ys ++ zs ∧
    lines sep [] ys=((lines sep [] xs).1,(lines sep [] xs).2.take n) := by
  have hxs : [] ++ xs=((lines sep [] xs).1.map (· ++ [sep])).flatten ++ (lines sep [] xs).2 :=
    lines_flatten [] xs
  refine ⟨((lines sep [] xs).1.map (· ++ [sep])).flatten ++ (lines sep [] xs).2.take n,
    (lines sep [] xs).2.drop n,?_,?_⟩
  · rw [List.append_assoc,List.take_append_drop]
    exact hxs
  · have hopen : sep ∉ (lines sep [] xs).2.take n :=
      fun h => notMem_open List.not_mem_nil (List.mem_of_mem_take h)
    rw [lines_closed fun l hl => notMem_line List.not_mem_nil hl,lines_of_notMem hopen]
    simp

/-- A stream can be cut so that a given part of a line is open. -/
theorem exists_cut (hl : l ∈ (lines sep [] xs).1) (n : ℕ) :
    ∃ ys zs, xs=ys ++ zs ∧ (lines sep [] ys).2=l.take n := by
  have hxs : [] ++ xs=((lines sep [] xs).1.map (· ++ [sep])).flatten ++ (lines sep [] xs).2 :=
    lines_flatten [] xs
  have hall : ∀ l ∈ (lines sep [] xs).1, sep ∉ l := fun l hl => notMem_line List.not_mem_nil hl
  rw [List.nil_append] at hxs
  obtain ⟨ls,ms,hlm⟩ := List.append_of_mem hl
  rw [hlm] at hxs hall
  refine ⟨(ls.map (· ++ [sep])).flatten ++ l.take n,
    l.drop n ++ [sep] ++ (ms.map (· ++ [sep])).flatten ++ (lines sep [] xs).2,?_,?_⟩
  · refine hxs.trans ?_
    simp only [List.map_append,List.map_cons,List.flatten_append,List.flatten_cons,List.append_assoc]
    rw [← List.append_assoc (l.take n),List.take_append_drop]
  · rw [lines_closed fun l hl => hall l (List.mem_append_left _ hl),lines_of_notMem]
    · rfl
    · intro h
      exact hall l (by simp) (List.mem_of_mem_take h)

theorem notMem_of_lines_nil (h : (lines sep [] xs).1=[]) : sep ∉ xs := by
  have hxs : [] ++ xs=((lines sep [] xs).1.map (· ++ [sep])).flatten ++ (lines sep [] xs).2 :=
    lines_flatten [] xs
  have ht : sep ∉ (lines sep [] xs).2 := notMem_open List.not_mem_nil
  rw [h] at hxs
  rw [show xs=(lines sep [] xs).2 from hxs]
  exact ht

/-- The first line and what follows it. -/
theorem exists_of_lines_cons {ls : List (List α)} {t : List α} (h : lines sep [] xs=(l::ls,t)) :
    ∃ rest, xs=l ++ sep::rest ∧ sep ∉ l ∧ lines sep [] rest=(ls,t) := by
  have hxs : [] ++ xs=((lines sep [] xs).1.map (· ++ [sep])).flatten ++ (lines sep [] xs).2 :=
    lines_flatten [] xs
  have hall : ∀ l' ∈ (lines sep [] xs).1, sep ∉ l' := fun l' hl => notMem_line List.not_mem_nil hl
  have ht : sep ∉ (lines sep [] xs).2 := notMem_open List.not_mem_nil
  rw [h] at hxs hall ht
  obtain ⟨hl,hls⟩ := List.forall_mem_cons.mp hall
  refine ⟨(ls.map (· ++ [sep])).flatten ++ t,?_,hl,?_⟩
  · simpa using hxs
  · rw [lines_closed hls,lines_of_notMem ht]
    simp

theorem takeWhile_line (h : sep ∉ l) : (l ++ sep::xs).takeWhile (fun b => b ≠ sep)=l := by
  induction l with
  | nil => simp
  | cons c l ih =>
    rw [List.mem_cons,not_or] at h
    rw [List.cons_append,List.takeWhile_cons_of_pos (by simpa using Ne.symm h.1),ih h.2]

theorem dropWhile_line (h : sep ∉ l) : (l ++ sep::xs).dropWhile (fun b => b ≠ sep)=sep::xs := by
  induction l with
  | nil => simp
  | cons c l ih =>
    rw [List.mem_cons,not_or] at h
    rw [List.cons_append,List.dropWhile_cons_of_pos (by simpa using Ne.symm h.1),ih h.2]

/-- A line ends at the first separator. -/
theorem line_inj {m ys : List α} (hl : sep ∉ l) (hm : sep ∉ m) (h : l ++ sep::xs=m ++ sep::ys) :
    l=m ∧ xs=ys := by
  have htake := congrArg (List.takeWhile fun b => b ≠ sep) h
  rw [takeWhile_line hl,takeWhile_line hm] at htake
  subst htake
  exact ⟨rfl,(List.cons.inj (List.append_cancel_left h)).2⟩

/-- The open line is what stands behind the last separator. -/
theorem lines_open_eq (xs : List α) :
    (lines sep [] xs).2=(xs.reverse.takeWhile fun b => b ≠ sep).reverse := by
  induction xs using List.reverseRecOn with
  | nil => rfl
  | append_singleton xs c ih =>
    rw [lines_append,List.reverse_append,List.reverse_singleton,List.singleton_append]
    by_cases hc : c=sep
    · subst hc
      rw [List.takeWhile_cons_of_neg (by simp),lines_sep]
      rfl
    · rw [List.takeWhile_cons_of_pos (by simpa using hc),lines_cons hc,ih,List.reverse_cons]
      rfl

end

end Frames
