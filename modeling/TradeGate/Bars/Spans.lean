import Mathlib.Data.List.Induction
import TradeGate.Model.Klines

/-! Merged spans are apart and cover what was given; what is missing of a range are its gaps. -/
namespace TradeGate.Klines

/-- The time is in the span. -/
def Span.Holds (s : Span) (x : ℤ) : Prop := s.from_ ≤ x ∧ x ≤ s.to_

def Covered (spans : List Span) (x : ℤ) : Prop := ∃ s ∈ spans, s.Holds x

/-- In order, without a common time and without adjacent times. -/
def Separated (spans : List Span) : Prop := spans.Pairwise fun s t => s.to_+1<t.from_

/-- A nonempty interval of the range without a covered time. -/
structure Free (covered : List Span) (from_ to_ : ℤ) (s : Span) : Prop where
  lower : from_ ≤ s.from_
  nonempty : s.from_ ≤ s.to_
  upper : s.to_ ≤ to_
  uncovered : ∀ x, s.Holds x → ¬Covered covered x

/-- A free interval that is contained in no other. -/
def Gap (covered : List Span) (from_ to_ : ℤ) (s : Span) : Prop :=
  Free covered from_ to_ s ∧ ∀ t, Free covered from_ to_ t → (∀ x, s.Holds x → t.Holds x) → t=s

section
variable {covered covered' spans out : List Span} {s t g last : Span} {from_ to_ a b x : ℤ}

theorem covered_nil : ¬Covered [] x := by
  intro ⟨s,hs,_⟩
  cases hs

theorem covered_cons : Covered (s::spans) x ↔ s.Holds x ∨ Covered spans x := by
  unfold Covered
  simp only [List.mem_cons,exists_eq_or_imp]

theorem covered_append : Covered (spans++covered) x ↔ Covered spans x ∨ Covered covered x := by
  unfold Covered
  simp only [List.mem_append,or_and_right,exists_or]

theorem Span.holds_from (h : s.from_ ≤ s.to_) : s.Holds s.from_ := ⟨le_refl _,h⟩

/-! Gaps of a range. -/

theorem Free.congr (h : ∀ x, from_ ≤ x → x ≤ to_ → (Covered covered x ↔ Covered covered' x))
    (hs : Free covered from_ to_ s) : Free covered' from_ to_ s where
  lower := hs.lower
  nonempty := hs.nonempty
  upper := hs.upper
  uncovered := by
    intro x hx hc
    exact hs.uncovered x hx ((h x (hs.lower.trans hx.1) (hx.2.trans hs.upper)).mpr hc)

/-- Only what is covered of the range counts. -/
theorem gap_congr (h : ∀ x, from_ ≤ x → x ≤ to_ → (Covered covered x ↔ Covered covered' x)) :
    Gap covered from_ to_ s ↔ Gap covered' from_ to_ s := by
  have h' : ∀ x, from_ ≤ x → x ≤ to_ → (Covered covered' x ↔ Covered covered x) :=
    fun x hlo hhi => (h x hlo hhi).symm
  constructor
  · intro hs
    exact ⟨hs.1.congr h,fun t ht => hs.2 t (ht.congr h')⟩
  · intro hs
    exact ⟨hs.1.congr h',fun t ht => hs.2 t (ht.congr h)⟩

theorem not_gap_of_lt (h : to_<from_) : ¬Gap covered from_ to_ s := by
  intro hs
  have hlower := hs.1.lower
  have hnonempty := hs.1.nonempty
  have hupper := hs.1.upper
  omega

/-- A free range is its only gap. -/
theorem gap_iff_of_free (hle : from_ ≤ to_) (h : ∀ x, from_ ≤ x → x ≤ to_ → ¬Covered covered x) :
    Gap covered from_ to_ s ↔ s=⟨from_,to_⟩ := by
  have hwhole : Free covered from_ to_ ⟨from_,to_⟩ := ⟨le_refl _,hle,le_refl _,fun x hx => h x hx.1 hx.2⟩
  constructor
  · intro hs
    exact (hs.2 _ hwhole fun x hx => ⟨hs.1.lower.trans hx.1,hx.2.trans hs.1.upper⟩).symm
  · intro hs
    subst hs
    refine ⟨hwhole,?_⟩
    intro t ht hin
    have hlo := (hin from_ ⟨le_refl _,hle⟩).1
    have hhi := (hin to_ ⟨hle,le_refl _⟩).2
    have hfrom : t.from_=from_ := le_antisymm hlo ht.lower
    have hto : t.to_=to_ := le_antisymm ht.upper hhi
    rw [← hfrom,← hto]

/-- A free interval is on one side of what is covered throughout. -/
theorem Free.side (hs : Free covered from_ to_ s) (hab : a ≤ b)
    (hcov : ∀ x, a ≤ x → x ≤ b → Covered covered x) : s.to_<a ∨ b<s.from_ := by
  by_contra hboth
  push Not at hboth
  have hnonempty := hs.nonempty
  have hin : s.Holds (max s.from_ a) := ⟨le_max_left _ _,max_le hnonempty hboth.1⟩
  exact hs.uncovered _ hin (hcov _ (le_max_right _ _) (max_le hboth.2 hab))

theorem Free.weaken (hs : Free covered a to_ s) (h : from_ ≤ a) : Free covered from_ to_ s :=
  ⟨h.trans hs.lower,hs.nonempty,hs.upper,hs.uncovered⟩

/-- The gaps up to the end of what is covered first, and those after it. -/
theorem gap_split (covered : List Span) (from_ to_ : ℤ) (hab : a ≤ b) (hto : a ≤ to_) (hcov : ∀ x, a ≤ x → x ≤ b → Covered covered x)
    (hfree : ∀ x, from_ ≤ x → x<a → ¬Covered covered x) :
    Gap covered from_ to_ g ↔ from_<a ∧ g=⟨from_,a-1⟩ ∨ Gap covered (max from_ (b+1)) to_ g := by
  constructor
  · intro hg
    have hlower := hg.1.lower
    have hnonempty := hg.1.nonempty
    cases hg.1.side hab hcov with
    | inl hbefore =>
      have hfirst : Free covered from_ to_ ⟨from_,a-1⟩ :=
        ⟨le_refl _,by dsimp only; omega,by dsimp only; omega,fun x hx => hfree x hx.1 (Int.lt_of_le_sub_one hx.2)⟩
      refine .inl ⟨by omega,(hg.2 _ hfirst ?_).symm⟩
      intro x hx
      exact ⟨hlower.trans hx.1,Int.le_sub_one_of_lt (lt_of_le_of_lt hx.2 hbefore)⟩
    | inr hafter =>
      refine .inr ⟨⟨max_le hlower hafter,hnonempty,hg.1.upper,hg.1.uncovered⟩,?_⟩
      intro t ht
      exact hg.2 t (ht.weaken (le_max_left _ _))
  · intro hg
    cases hg with
    | inl hfirst =>
      obtain ⟨hlt,rfl⟩ := hfirst
      refine ⟨⟨le_refl _,by dsimp only; omega,by dsimp only; omega,
        fun x hx => hfree x hx.1 (Int.lt_of_le_sub_one hx.2)⟩,?_⟩
      intro t ht hin
      have hlo := (hin from_ ⟨le_refl _,Int.le_sub_one_of_lt hlt⟩).1
      have hhi := (hin (a-1) ⟨Int.le_sub_one_of_lt hlt,le_refl _⟩).2
      have hlower := ht.lower
      have hside := ht.side hab hcov
      have hfrom : t.from_=from_ := le_antisymm hlo hlower
      have hend : t.to_=a-1 := by omega
      rw [← hfrom,← hend]
    | inr hrest =>
      refine ⟨hrest.1.weaken (le_max_left _ _),?_⟩
      intro t ht hin
      have hfrom := hin g.from_ (Span.holds_from hrest.1.nonempty)
      have hlo := (le_max_right _ _).trans hrest.1.lower
      have hleft := hfrom.2
      have hside := ht.side hab hcov
      have hafter : b+1 ≤ t.from_ := by omega
      exact hrest.2 t ⟨max_le ht.lower hafter,ht.nonempty,ht.upper,ht.uncovered⟩ hin

/-! `mergeSpans`. -/

theorem absorb_concat (init : List Span) (last s : Span) : absorb (init++[last]) s =
    if s.from_ ≤ last.to_+1 then init++[⟨last.from_,max last.to_ s.to_⟩] else init++[last]++[s] := by
  unfold absorb
  rw [List.getLast?_concat,List.dropLast_concat]

theorem Separated.concat {init : List Span} (h : Separated init) (hlast : ∀ t ∈ init, t.to_+1<s.from_) :
    Separated (init++[s]) := by
  apply List.pairwise_append.mpr
  refine ⟨h,List.pairwise_singleton _ _,?_⟩
  intro t ht u hu
  rw [List.mem_singleton.mp hu]
  exact hlast t ht

/-- The spans put out so far are apart and nonempty. -/
structure Merged (out : List Span) : Prop where
  separated : Separated out
  nonempty : ∀ s ∈ out, s.from_ ≤ s.to_

/-- A span that starts no earlier than those put out keeps them apart, and adds what it holds. -/
theorem Merged.absorb (h : Merged out) (hs : s.from_ ≤ s.to_) (hle : ∀ t ∈ out, t.from_ ≤ s.from_) :
    Merged (absorb out s) ∧ (∀ x, Covered (absorb out s) x ↔ Covered out x ∨ s.Holds x) ∧
      ∀ t ∈ Klines.absorb out s, t.from_ ≤ s.from_ := by
  induction out using List.reverseRecOn with
  | nil =>
    refine ⟨⟨List.pairwise_singleton _ _,?_⟩,?_,?_⟩
    · intro t ht
      rwa [List.mem_singleton.mp ht]
    · intro x
      exact covered_cons.trans or_comm
    · intro t ht
      rw [List.mem_singleton.mp ht]
  | append_singleton init last _ =>
    obtain ⟨hinit,_,hlast⟩ := List.pairwise_append.mp h.separated
    have hlast : ∀ t ∈ init, t.to_+1<last.from_ := fun t ht => hlast t ht last (List.mem_singleton_self _)
    have hmem : last ∈ init++[last] := List.mem_append_right _ (List.mem_singleton_self _)
    have hfrom := hle last hmem
    have hne := h.nonempty last hmem
    rw [absorb_concat]
    by_cases htouch : s.from_ ≤ last.to_+1
    · rw [if_pos htouch]
      refine ⟨⟨Separated.concat hinit hlast,?_⟩,?_,?_⟩
      · intro t ht
        cases List.mem_append.mp ht with
        | inl ht => exact h.nonempty t (List.mem_append_left _ ht)
        | inr ht =>
          rw [List.mem_singleton.mp ht]
          exact hne.trans (le_max_left _ _)
      · intro x
        have hgrow : Span.Holds ⟨last.from_,max last.to_ s.to_⟩ x ↔ last.Holds x ∨ s.Holds x := by
          unfold Span.Holds
          dsimp only
          omega
        simp only [covered_append,covered_cons,hgrow,covered_nil,or_false,or_assoc]
      · intro t ht
        cases List.mem_append.mp ht with
        | inl ht => exact hle t (List.mem_append_left _ ht)
        | inr ht =>
          rw [List.mem_singleton.mp ht]
          exact hfrom
    · rw [if_neg htouch]
      refine ⟨⟨h.separated.concat ?_,?_⟩,?_,?_⟩
      · intro t ht
        cases List.mem_append.mp ht with
        | inl ht =>
          have hbefore := hlast t ht
          omega
        | inr ht =>
          rw [List.mem_singleton.mp ht]
          omega
      · intro t ht
        cases List.mem_append.mp ht with
        | inl ht => exact h.nonempty t ht
        | inr ht => rwa [List.mem_singleton.mp ht]
      · intro x
        rw [covered_append,covered_cons]
        simp only [covered_nil,or_false]
      · intro t ht
        cases List.mem_append.mp ht with
        | inl ht => exact hle t ht
        | inr ht => rw [List.mem_singleton.mp ht]

theorem Merged.foldl (h : Merged out) (hne : ∀ s ∈ spans, s.from_ ≤ s.to_)
    (hsorted : spans.Pairwise fun s t => s.from_ ≤ t.from_) (hle : ∀ t ∈ out, ∀ s ∈ spans, t.from_ ≤ s.from_) :
    Merged (spans.foldl Klines.absorb out) ∧
      ∀ x, Covered (spans.foldl Klines.absorb out) x ↔ Covered out x ∨ Covered spans x := by
  induction spans generalizing out with
  | nil => exact ⟨h,fun x => (or_iff_left covered_nil).symm⟩
  | cons s spans ih =>
    obtain ⟨hfirst,hsorted⟩ := List.pairwise_cons.mp hsorted
    obtain ⟨hmerged,hcover,hfrom⟩ :=
      h.absorb (hne s List.mem_cons_self) fun t ht => hle t ht s List.mem_cons_self
    obtain ⟨hmerged',hcover'⟩ := ih hmerged (fun t ht => hne t (List.mem_cons_of_mem _ ht)) hsorted
      fun t ht u hu => (hfrom t ht).trans (hfirst u hu)
    refine ⟨hmerged',?_⟩
    intro x
    rw [List.foldl_cons,hcover',hcover,covered_cons,or_assoc]

/-- Spans that are empty cover nothing, and the order is of no account. -/
theorem covered_sorted (spans : List Span) (x : ℤ) :
    Covered ((spans.filter fun s => s.from_ ≤ s.to_).insertionSort fun a b => a.from_ ≤ b.from_) x ↔
      Covered spans x := by
  unfold Covered
  constructor
  · intro ⟨s,hs,hx⟩
    exact ⟨s,(List.mem_filter.mp ((List.mem_insertionSort _).mp hs)).1,hx⟩
  · intro ⟨s,hs,hx⟩
    exact ⟨s,(List.mem_insertionSort _).mpr (List.mem_filter.mpr ⟨hs,decide_eq_true (hx.1.trans hx.2)⟩),hx⟩

theorem mergeSpans_spec (spans : List Span) :
    Merged (mergeSpans spans) ∧ ∀ x, Covered (mergeSpans spans) x ↔ Covered spans x := by
  have : Std.Total fun a b : Span => a.from_ ≤ b.from_ := ⟨fun a b => le_total _ _⟩
  have : IsTrans Span fun a b => a.from_ ≤ b.from_ := ⟨fun _ _ _ => le_trans⟩
  have hsorted := List.pairwise_insertionSort (fun a b : Span => a.from_ ≤ b.from_)
    (spans.filter fun s => s.from_ ≤ s.to_)
  obtain ⟨hmerged,hcover⟩ := Merged.foldl (show Merged [] from ⟨List.Pairwise.nil,by simp⟩)
    (fun s hs => of_decide_eq_true (List.mem_filter.mp ((List.mem_insertionSort _).mp hs)).2)
    hsorted (by simp)
  refine ⟨hmerged,?_⟩
  intro x
  unfold mergeSpans
  rw [hcover,or_iff_right covered_nil,covered_sorted]

/-! `missingSpans`. -/

theorem mem_closeScan (out : List Span) (cursor : ℤ) :
    g ∈ closeScan to_ (out,cursor) ↔ g ∈ out ∨ cursor ≤ to_ ∧ g=⟨cursor,to_⟩ := by
  unfold closeScan
  dsimp only
  split <;> simp [*]

/-- Over spans that are apart the loop puts out the gaps from its cursor on. -/
theorem mem_scanSpans (h : Merged spans) (out : List Span) (cursor : ℤ) :
    g ∈ closeScan to_ (scanSpans to_ spans out cursor) ↔ g ∈ out ∨ Gap spans cursor to_ g := by
  induction spans generalizing out cursor with
  | nil =>
    rw [scanSpans,mem_closeScan]
    by_cases hle : cursor ≤ to_
    · rw [gap_iff_of_free hle fun x _ _ => covered_nil]
      simp [hle]
    · simp [hle,not_gap_of_lt (not_le.mp hle)]
  | cons s spans ih =>
    obtain ⟨hfirst,hsep⟩ := List.pairwise_cons.mp h.separated
    have hs := h.nonempty s List.mem_cons_self
    have hrest : Merged spans := ⟨hsep,fun t ht => h.nonempty t (List.mem_cons_of_mem _ ht)⟩
    have hlater : ∀ x, Covered spans x → s.to_+1<x := by
      intro x ⟨t,ht,hx⟩
      exact lt_of_lt_of_le (hfirst t ht) hx.1
    rw [scanSpans]
    by_cases hbefore : s.to_<cursor
    · rw [if_pos hbefore,ih hrest]
      refine or_congr_right (gap_congr ?_)
      intro x hx _
      have hout : ¬s.Holds x := fun hin => by have := hin.2; omega
      rw [covered_cons,or_iff_right hout]
    rw [if_neg hbefore]
    by_cases hafter : to_<s.from_
    · rw [if_pos hafter,mem_closeScan]
      have hfree : ∀ x, cursor ≤ x → x ≤ to_ → ¬Covered (s::spans) x := by
        intro x _ hx hc
        cases covered_cons.mp hc with
        | inl hin =>
          have hfrom := hin.1
          omega
        | inr hin =>
          have hto := hlater x hin
          omega
      by_cases hle : cursor ≤ to_
      · rw [gap_iff_of_free hle hfree]
        simp [hle]
      · simp [hle,not_gap_of_lt (not_le.mp hle)]
    rw [if_neg hafter]
    dsimp only
    have hsplit := gap_split (g := g) (s::spans) cursor to_ hs (not_lt.mp hafter)
      (fun x hlo hhi => covered_cons.mpr (.inl ⟨hlo,hhi⟩)) (by
        intro x _ hx hc
        cases covered_cons.mp hc with
        | inl hin => exact absurd hin.1 (not_le.mpr hx)
        | inr hin =>
          have hto := hlater x hin
          omega)
    have hcongr : Gap (s::spans) (max cursor (s.to_+1)) to_ g ↔ Gap spans (max cursor (s.to_+1)) to_ g := by
      apply gap_congr
      intro x hx _
      have hout : ¬s.Holds x := fun hin => by
        have hto := hin.2
        have hpast := (le_max_right cursor (s.to_+1)).trans hx
        omega
      rw [covered_cons,or_iff_right hout]
    have hput : g ∈ (if cursor<s.from_ then out++[⟨cursor,min to_ (s.from_-1)⟩] else out) ↔
        g ∈ out ∨ cursor<s.from_ ∧ g=⟨cursor,s.from_-1⟩ := by
      have hmin : min to_ (s.from_-1)=s.from_-1 := by omega
      rw [hmin]
      split <;> simp [*]
    rw [hsplit,hcongr,← or_assoc,← hput]
    by_cases hend : to_ < max cursor (s.to_+1)
    · rw [if_pos hend,mem_closeScan]
      simp [not_le.mpr hend,not_gap_of_lt hend]
    · rw [if_neg hend,ih hrest]

/-- One after the other. -/
def Ascending (spans : List Span) : Prop := spans.Pairwise fun s t => s.to_<t.from_

theorem Ascending.concat (h : Ascending out) (hs : ∀ t ∈ out, t.to_<s.from_) : Ascending (out++[s]) := by
  apply List.pairwise_append.mpr
  refine ⟨h,List.pairwise_singleton _ _,?_⟩
  intro t ht u hu
  rw [List.mem_singleton.mp hu]
  exact hs t ht

theorem ascending_closeScan (h : Ascending out) {cursor : ℤ} (hcursor : ∀ t ∈ out, t.to_<cursor) :
    Ascending (closeScan to_ (out,cursor)) := by
  unfold closeScan
  split
  · exact h.concat hcursor
  · exact h

/-- The loop puts out what is before its cursor, in order. -/
theorem ascending_scanSpans (h : Ascending out) {cursor : ℤ} (hcursor : ∀ t ∈ out, t.to_<cursor)
    (hne : ∀ s ∈ spans, s.from_ ≤ s.to_) : Ascending (closeScan to_ (scanSpans to_ spans out cursor)) := by
  induction spans generalizing out cursor with
  | nil => exact ascending_closeScan h hcursor
  | cons s spans ih =>
    have hs := hne s List.mem_cons_self
    have hrest : ∀ t ∈ spans, t.from_ ≤ t.to_ := fun t ht => hne t (List.mem_cons_of_mem _ ht)
    rw [scanSpans]
    split
    · exact ih h hcursor hrest
    split
    · exact ascending_closeScan h hcursor
    have hput : Ascending (if cursor<s.from_ then out++[⟨cursor,min to_ (s.from_-1)⟩] else out) := by
      split
      · exact h.concat hcursor
      · exact h
    have hbound : ∀ t ∈ (if cursor<s.from_ then out++[⟨cursor,min to_ (s.from_-1)⟩] else out),
        t.to_ < max cursor (s.to_+1) := by
      intro t ht
      split at ht
      · cases List.mem_append.mp ht with
        | inl ht => exact lt_of_lt_of_le (hcursor t ht) (le_max_left _ _)
        | inr ht =>
          rw [List.mem_singleton.mp ht]
          dsimp only
          omega
      · exact lt_of_lt_of_le (hcursor t ht) (le_max_left _ _)
    dsimp only
    split
    · exact ascending_closeScan hput hbound
    · exact ih hput hbound hrest

end

/-- Merged spans are in order, nonempty, apart by more than one, and cover what the two lists cover;
what is missing of a range are its gaps of the length, each of them and in order. -/
theorem spans_exact (a b : List Span) :
    Separated (mergeSpans (a++b)) ∧ (∀ s ∈ mergeSpans (a++b), s.from_ ≤ s.to_) ∧
    (∀ x, Covered (mergeSpans (a++b)) x ↔ Covered a x ∨ Covered b x) ∧
    ∀ (covered : List Span) (from_ to_ step : ℤ), Ascending (missingSpans covered from_ to_ step) ∧
      ∀ s, s ∈ missingSpans covered from_ to_ step ↔ Gap covered from_ to_ s ∧ step ≤ s.to_-s.from_ := by
  obtain ⟨hmerged,hcover⟩ := mergeSpans_spec (a++b)
  refine ⟨hmerged.separated,hmerged.nonempty,fun x => (hcover x).trans covered_append,?_⟩
  intro covered from_ to_ step
  obtain ⟨hmerged,hcover⟩ := mergeSpans_spec covered
  constructor
  · apply List.Pairwise.filter
    exact ascending_scanSpans List.Pairwise.nil (by simp) hmerged.nonempty
  · intro s
    unfold missingSpans
    rw [List.mem_filter,mem_scanSpans hmerged,gap_congr fun x _ _ => hcover x]
    simp

example : missingSpans [⟨5,7⟩,⟨0,2⟩,⟨8,9⟩] 1 20 1=[⟨3,4⟩,⟨10,20⟩] := by decide +kernel

end TradeGate.Klines
