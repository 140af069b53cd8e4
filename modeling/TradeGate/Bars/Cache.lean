import Mathlib.Data.Int.LeastGreatest
import TradeGate.Bars.Spans
import TradeGate.Bars.Walk
import TradeGate.Machine.Run

/-! The file of bars, over calls that run side by side: what it covers it has, what a call answers is
the exchange's, and what was fetched is not asked for again. -/
namespace TradeGate.Klines
open Keyed

variable {M : Market} {now t : ℤ} {file cache : CacheFile} {bars : List Kline} {covered fetched gaps : List Span}

/-- The file has closed bars only, and each that closes at a covered time. -/
structure Sound (M : Market) (t : ℤ) (file : CacheFile) : Prop where
  closed : ∀ k ∈ file.bars, M.Bar k ∧ k.closeTime<t
  ascending : file.bars.Pairwise fun a b => a.openTime<b.openTime
  complete : ∀ b, M.Bar b → Covered (file.covered M.step) b.closeTime → b ∈ file.bars

theorem Sound.mono {t' : ℤ} (h : Sound M t file) (hle : t ≤ t') : Sound M t' file where
  closed k hk := ⟨(h.closed k hk).1,lt_of_lt_of_le (h.closed k hk).2 hle⟩
  ascending := h.ascending
  complete := h.complete

/-! Files without spans. -/

theorem covered_runsFrom {start x : ℤ} {prev : Kline} {seen : List Kline} (hbars : ∀ k ∈ prev::bars, M.Bar k)
    (hseen : ∀ x, start ≤ x → x ≤ prev.closeTime → ∃ k ∈ seen, k.openTime ≤ x ∧ x ≤ k.closeTime)
    (h : Covered (runsFrom M.step start prev bars) x) : ∃ k ∈ seen++bars, k.openTime ≤ x ∧ x ≤ k.closeTime := by
  induction bars generalizing start prev seen with
  | nil =>
    rw [runsFrom] at h
    rcases covered_cons.mp h with h | h
    · simpa using hseen x h.1 h.2
    · exact absurd h covered_nil
  | cons k bars ih =>
    obtain ⟨hprev,hrest⟩ := List.forall_mem_cons.mp hbars
    have hself : ∀ x, k.openTime ≤ x → x ≤ k.closeTime → ∃ j ∈ seen++[k], j.openTime ≤ x ∧ x ≤ j.closeTime :=
      fun x hlo hhi => ⟨k,by simp,hlo,hhi⟩
    rw [List.append_cons]
    rw [runsFrom] at h
    split at h
    · rcases covered_cons.mp h with h | h
      · obtain ⟨j,hj,hx⟩ := hseen x h.1 h.2
        exact ⟨j,by simp [hj],hx⟩
      · exact ih hrest hself h
    next hstep =>
      refine ih hrest ?_ h
      intro y hlo hhi
      by_cases hy : y ≤ prev.closeTime
      · obtain ⟨j,hj,hx⟩ := hseen y hlo hy
        exact ⟨j,by simp [hj],hx⟩
      · have hclose := M.closeTime_eq hprev
        exact hself y (by omega) hhi

/-- A file of the old kind is sound whatever bars it has. -/
theorem sound_of_bars (hclosed : ∀ k ∈ bars, M.Bar k ∧ k.closeTime<t)
    (hasc : bars.Pairwise fun a b => a.openTime<b.openTime) : Sound M t ⟨bars,none⟩ where
  closed := hclosed
  ascending := hasc
  complete b hb hcov := by
    change Covered (spansFromBars bars M.step) b.closeTime at hcov
    unfold spansFromBars at hcov
    rw [(mergeSpans_spec _).2] at hcov
    cases bars with
    | nil => exact absurd hcov covered_nil
    | cons k bars =>
      have hseen : ∀ x, k.openTime ≤ x → x ≤ k.closeTime → ∃ j ∈ [k], j.openTime ≤ x ∧ x ≤ j.closeTime :=
        fun x hlo hhi => ⟨k,List.mem_singleton_self k,hlo,hhi⟩
      obtain ⟨j,hj,hlo,hhi⟩ := covered_runsFrom (fun j hj => (hclosed j hj).1) hseen hcov
      have hbar := (hclosed j hj).1
      have hle := (show M.Shows t _ from Market.shows_bar hbar).openTime_le hb hlo
      have hge := (show M.Shows t _ from Market.shows_bar hb).openTime_le hbar (by
        have := M.closeTime_eq hb
        have := M.step_pos
        omega)
      rwa [← M.sole hbar hb (le_antisymm hle hge)]

/-! The loop over the gaps. -/

/-- What the loop has: bars as the exchange shows them, and each closed one of what is covered. -/
structure Filling (M : Market) (now : ℤ) (covered : List Span) (bars : List Kline) (fetched : List Span) : Prop where
  shows_ : ∀ k ∈ bars, M.Shows now k
  ascending : bars.Pairwise fun a b => a.openTime<b.openTime
  complete : ∀ b, M.Bar b → b.closeTime<now → Covered (covered++fetched) b.closeTime → b ∈ bars
  past : ∀ x, Covered fetched x → x<now

theorem Sound.filling (h : Sound M now file) : Filling M now (file.covered M.step) file.bars [] where
  shows_ k hk := Market.shows_bar (h.closed k hk).1
  ascending := h.ascending
  complete b hb _ hcov := h.complete b hb (by simpa using hcov)
  past x hx := absurd hx covered_nil

theorem covered_fetched {page : Page} {gap : Span} {x : ℤ} :
    Covered (if page.left gap ≤ min gap.to_ (now-1) then fetched++[⟨page.left gap,min gap.to_ (now-1)⟩] else fetched) x ↔
      Covered fetched x ∨ page.left gap ≤ x ∧ x ≤ gap.to_ ∧ x<now := by
  have hspan : Span.Holds ⟨page.left gap,min gap.to_ (now-1)⟩ x ↔ page.left gap ≤ x ∧ x ≤ gap.to_ ∧ x<now := by
    unfold Span.Holds
    dsimp only
    omega
  split
  · simp only [covered_append,covered_cons,covered_nil,or_false,hspan]
  · constructor
    · exact .inl
    · rintro (h | h)
      · exact h
      · omega

theorem Filling.step {page : Page} {gap : Span} (h : Filling M now covered bars fetched) (hpage : Found M now gap page) :
    Filling M now covered (mergeBars bars page.bars)
      (if page.left gap ≤ min gap.to_ (now-1) then fetched++[⟨page.left gap,min gap.to_ (now-1)⟩] else fetched) := by
  have hshows : ∀ k ∈ bars++page.bars, M.Shows now k := by
    intro k hk
    rcases List.mem_append.mp hk with hk | hk
    · exact h.shows_ k hk
    · exact hpage.shows_ k hk
  constructor
  · intro k hk
    rcases Table.mem_of_mem_foldl (Table.mem_inOrder.mp hk) with hk | hk
    · cases hk
    · exact hshows k hk
  · exact Table.inOrder_pairwise _
  · intro b hb hclosed hcov
    have hmem : b ∈ bars++page.bars := by
      rw [covered_append,covered_fetched,← or_assoc,← covered_append] at hcov
      rcases hcov with hcov | ⟨hleft,hto,_⟩
      · exact List.mem_append_left _ (h.complete b hb hclosed hcov)
      · have hlen := M.closeTime_eq hb
        have hstep := M.step_pos
        obtain ⟨k,hk,he⟩ := hpage.complete b hb (by omega) (by omega) hleft
        exact List.mem_append_right _ ((hpage.shows_ k hk).eq_of_openTime hb he hclosed ▸ hk)
    apply Table.mem_inOrder.mpr
    exact Table.mem_foldl_of_agree (.inr hmem) fun k hk he => (hshows k hk).eq_of_openTime hb he hclosed
  · intro x hx
    rcases covered_fetched.mp hx with hx | hx
    · exact h.past x hx
    · exact hx.2.2

theorem fill_filling {get : Server} {bars' : List Kline} {fetched' : List Span} (hget : ∀ gap, M.Serves now (get gap))
    (h : Filling M now covered bars fetched) (hfill : fill get now gaps bars fetched=some (bars',fetched')) :
    Filling M now covered bars' fetched' := by
  induction gaps generalizing bars fetched with
  | nil =>
    cases hfill
    exact h
  | cons gap gaps ih =>
    rw [fill] at hfill
    split at hfill
    · cases hfill
    next page hpage => exact ih (h.step (fetchKlineSpan_found (hget gap) hpage)) hfill

/-- What was fetched of each gap that the walk crossed. -/
theorem covered_of_fill {get : Server} {bars' : List Kline} {fetched' : List Span} {x : ℤ} (hget : ∀ gap, M.Serves now (get gap))
    (hgaps : ∀ gap ∈ gaps, 0<gap.from_ ∧ gap.from_ ≤ gap.to_ ∧ gap.to_-gap.from_ ≤ reach M.step) (hx : x<now)
    (hfill : fill get now gaps bars fetched=some (bars',fetched'))
    (h : Covered fetched x ∨ Covered gaps x) : Covered fetched' x := by
  induction gaps generalizing bars fetched with
  | nil =>
    cases hfill
    exact h.resolve_right covered_nil
  | cons gap gaps ih =>
    obtain ⟨hgap,hrest⟩ := List.forall_mem_cons.mp hgaps
    rw [fill] at hfill
    split at hfill
    · cases hfill
    next page hpage =>
      refine ih hrest hfill ?_
      rw [covered_fetched]
      rcases h with h | h
      · exact .inl (.inl h)
      · rcases covered_cons.mp h with h | h
        · have hreached := fetchKlineSpan_reaches (hget gap) hgap.1 hgap.2.1 hgap.2.2 hpage
          have hleft : page.left gap=gap.from_ := by simp [Page.left,hreached]
          exact .inl (.inr ⟨hleft.le.trans h.1,h.2,hx⟩)
        · exact .inr h

/-! Gaps. -/

theorem mem_missingSpans {from_ to_ step : ℤ} {s : Span} :
    s ∈ missingSpans covered from_ to_ step ↔ Gap covered from_ to_ s ∧ step ≤ s.to_-s.from_ := by
  obtain ⟨hmerged,hcover⟩ := mergeSpans_spec covered
  unfold missingSpans
  rw [List.mem_filter,mem_scanSpans hmerged,gap_congr fun x _ _ => hcover x]
  simp

/-- A free interval is part of a gap. -/
theorem Free.gap {from_ to_ : ℤ} {s : Span} (h : Free covered from_ to_ s) :
    ∃ g, Gap covered from_ to_ g ∧ g.from_ ≤ s.from_ ∧ s.to_ ≤ g.to_ := by
  have hne := h.nonempty
  obtain ⟨a,⟨ha,hafree⟩,hamin⟩ := Int.exists_least_of_bdd
    (P := fun a => (from_ ≤ a ∧ a ≤ s.from_) ∧ ∀ x, a ≤ x → x ≤ s.to_ → ¬Covered covered x)
    ⟨from_,fun a h => h.1.1⟩ ⟨s.from_,⟨h.lower,le_refl _⟩,fun x hlo hhi => h.uncovered x ⟨hlo,hhi⟩⟩
  obtain ⟨b,⟨hb,hbfree⟩,hbmax⟩ := Int.exists_greatest_of_bdd
    (P := fun b => (s.to_ ≤ b ∧ b ≤ to_) ∧ ∀ x, s.from_ ≤ x → x ≤ b → ¬Covered covered x)
    ⟨to_,fun b h => h.1.2⟩ ⟨s.to_,⟨le_refl _,h.upper⟩,fun x hlo hhi => h.uncovered x ⟨hlo,hhi⟩⟩
  refine ⟨⟨a,b⟩,⟨⟨ha.1,by dsimp only; omega,hb.2,?_⟩,?_⟩,ha.2,hb.1⟩
  · intro x hx
    by_cases hle : x ≤ s.to_
    · exact hafree x hx.1 hle
    · exact hbfree x (by omega) hx.2
  · intro u hu hin
    have hlo := (hin a ⟨le_refl _,by dsimp only; omega⟩).1
    have hhi := (hin b ⟨by dsimp only; omega,le_refl _⟩).2
    have hufrom := hamin u.from_ ⟨⟨hu.lower,by omega⟩,fun x hx hx' => hu.uncovered x ⟨hx,by omega⟩⟩
    have huto := hbmax u.to_ ⟨⟨by omega,hu.upper⟩,fun x hx hx' => hu.uncovered x ⟨by omega,hx'⟩⟩
    rw [show a=u.from_ by omega,show b=u.to_ by omega]

theorem exists_gap {from_ to_ x : ℤ} (hlo : from_ ≤ x) (hhi : x ≤ to_) (hx : ¬Covered covered x) :
    ∃ g, Gap covered from_ to_ g ∧ g.Holds x := by
  have hfree : Free covered from_ to_ ⟨x,x⟩ := by
    refine ⟨hlo,le_refl _,hhi,?_⟩
    intro y hy
    rwa [le_antisymm hy.2 hy.1]
  exact hfree.gap

/-! A call. -/

theorem covered_file {written : List Kline} {x : ℤ} {step : ℤ} :
    Covered (CacheFile.covered ⟨written,some (mergeSpans covered)⟩ step) x ↔ Covered covered x := by
  change Covered (mergeSpans (mergeSpans covered)) x ↔ _
  rw [(mergeSpans_spec _).2,(mergeSpans_spec _).2]

/-- What a call does: it asks nothing and leaves the file, or it fills the gaps and may write. -/
theorem loadKlines_cases {step : ℤ} {call : Call} {loaded : Loaded} (h : loadKlines step cache call=some loaded) :
    (missingSpans (cache.covered step) call.from_ call.to_ step=[] ∧
      loaded=⟨sliceBars cache.bars call.from_ call.to_,none⟩) ∨
    ∃ bars fetched, fill call.get call.now (missingSpans (cache.covered step) call.from_ call.to_ step) cache.bars []=
        some (bars,fetched) ∧ loaded=⟨sliceBars bars call.from_ call.to_,
          if call.writable then some ⟨bars.filter fun k => k.closeTime<call.now,
            some (mergeSpans (cache.covered step++fetched))⟩ else none⟩ := by
  unfold loadKlines at h
  dsimp only at h
  split at h
  next hgaps =>
    cases h
    exact .inl ⟨hgaps,rfl⟩
  next gap gaps hgaps =>
    right
    split at h
    · cases h
    next bars fetched hfill =>
      cases h
      exact ⟨bars,fetched,hgaps ▸ hfill,rfl⟩

/-- A call that the exchange answers. -/
def Call.Honest (M : Market) (call : Call) : Prop := ∀ gap, M.Serves call.now (call.get gap)

/-- The answer is in order, shows the exchange's bars of the range, and has each that is closed and
ends in it, save for gaps shorter than one bar. -/
structure Answered (M : Market) (cache : CacheFile) (call : Call) (klines : List Kline) : Prop where
  ascending : klines.Pairwise fun a b => a.openTime<b.openTime
  shows_ : ∀ k ∈ klines, M.Shows call.now k ∧ call.from_ ≤ k.closeTime ∧ k.openTime ≤ call.to_
  complete : 0<call.from_ → call.to_-call.from_ ≤ reach M.step → ∀ b, M.Bar b → b.closeTime<call.now →
    call.from_ ≤ b.closeTime → b.closeTime ≤ call.to_ → b ∈ klines ∨
      ∃ g, Gap (cache.covered M.step) call.from_ call.to_ g ∧ g.Holds b.closeTime ∧ g.to_-g.from_<M.step

theorem mem_sliceBars {from_ to_ : ℤ} {k : Kline} :
    k ∈ sliceBars bars from_ to_ ↔ k ∈ bars ∧ from_ ≤ k.closeTime ∧ k.openTime ≤ to_ := by
  simp [sliceBars]

theorem Filling.answered {call : Call} {fetched : List Span}
    (h : Filling M call.now (cache.covered M.step) bars fetched)
    (hgaps : 0<call.from_ → call.to_-call.from_ ≤ reach M.step → ∀ x, x<call.now →
      Covered (missingSpans (cache.covered M.step) call.from_ call.to_ M.step) x → Covered fetched x) :
    Answered M cache call (sliceBars bars call.from_ call.to_) where
  ascending := h.ascending.filter _
  shows_ k hk := by
    obtain ⟨hk,hrange⟩ := mem_sliceBars.mp hk
    exact ⟨h.shows_ k hk,hrange⟩
  complete hpos hlen b hb hclosed hlo hhi := by
    have hslice : b ∈ bars → b ∈ sliceBars bars call.from_ call.to_ := by
      intro hmem
      have hopen := M.closeTime_eq hb
      have hstep := M.step_pos
      exact mem_sliceBars.mpr ⟨hmem,hlo,by omega⟩
    by_cases hcov : Covered (cache.covered M.step) b.closeTime
    · exact .inl (hslice (h.complete b hb hclosed (covered_append.mpr (.inl hcov))))
    obtain ⟨g,hg,hin⟩ := exists_gap hlo hhi hcov
    by_cases hshort : g.to_-g.from_<M.step
    · exact .inr ⟨g,hg,hin,hshort⟩
    · have hmissing := hgaps hpos hlen b.closeTime hclosed ⟨g,mem_missingSpans.mpr ⟨hg,not_lt.mp hshort⟩,hin⟩
      exact .inl (hslice (h.complete b hb hclosed (covered_append.mpr (.inr hmissing))))

theorem missing_bounds {call : Call} (hpos : 0<call.from_) (hlen : call.to_-call.from_ ≤ reach M.step) :
    ∀ gap ∈ missingSpans covered call.from_ call.to_ M.step,
      0<gap.from_ ∧ gap.from_ ≤ gap.to_ ∧ gap.to_-gap.from_ ≤ reach M.step := by
  intro gap hgap
  obtain ⟨⟨hfree,_⟩,_⟩ := mem_missingSpans.mp hgap
  have hlower := hfree.lower
  have hupper := hfree.upper
  exact ⟨by omega,hfree.nonempty,by omega⟩

theorem loadKlines_answered {call : Call} {loaded : Loaded} (hsound : Sound M call.now cache)
    (hcall : call.Honest M) (h : loadKlines M.step cache call=some loaded) : Answered M cache call loaded.klines := by
  rcases loadKlines_cases h with ⟨hnone,rfl⟩ | ⟨bars,fetched,hfill,rfl⟩
  · refine hsound.filling.answered ?_
    intro _ _ x _ hx
    rwa [hnone] at hx
  · refine (fill_filling hcall hsound.filling hfill).answered ?_
    intro hpos hlen x hx hmissing
    exact covered_of_fill hcall (missing_bounds hpos hlen) hx hfill (.inr hmissing)

theorem loadKlines_sound {call : Call} {loaded : Loaded} {written : CacheFile} (hsound : Sound M call.now cache)
    (hcall : call.Honest M) (h : loadKlines M.step cache call=some loaded) (hfile : loaded.file=some written) :
    Sound M call.now written := by
  rcases loadKlines_cases h with ⟨_,rfl⟩ | ⟨bars,fetched,hfill,rfl⟩
  · cases hfile
  · dsimp only at hfile
    split at hfile
    · cases hfile
      have hfilling := fill_filling hcall hsound.filling hfill
      constructor
      · intro k hk
        obtain ⟨hk,hclosed⟩ := List.mem_filter.mp hk
        have hclosed := of_decide_eq_true hclosed
        exact ⟨(hfilling.shows_ k hk).bar hclosed,hclosed⟩
      · exact hfilling.ascending.filter _
      · intro b hb hcov
        rw [covered_file] at hcov
        have hclosed : b.closeTime<call.now := by
          rcases covered_append.mp hcov with hcov | hcov
          · exact (hsound.closed b (hsound.complete b hb hcov)).2
          · exact hfilling.past _ hcov
        exact List.mem_filter.mpr ⟨hfilling.complete b hb hclosed hcov,decide_eq_true hclosed⟩
    · cases hfile

/-! Calls side by side. -/

/-- The clock does not go back, and the exchange answers. -/
def Orderly (M : Market) : ℤ → List Event → Prop
  | _, [] => True
  | t, .begin call::es => t ≤ call.now ∧ call.Honest M ∧ Orderly M call.now es
  | t, .finish _::es => Orderly M t es

/-- The last reading of the clock. -/
def lastReading : ℤ → List Event → ℤ
  | t, [] => t
  | _, .begin call::es => lastReading call.now es
  | t, .finish _::es => lastReading t es

/-- The file is sound, and so is each that a waiting call has read. -/
structure Desk.Sound (M : Market) (t : ℤ) (desk : Desk) : Prop where
  file : Klines.Sound M t desk.file
  waiting : ∀ w ∈ desk.waiting, Klines.Sound M w.2.now w.1 ∧ w.2.Honest M ∧ w.2.now ≤ t

theorem Desk.Sound.begin {desk : Desk} {call : Call} (h : desk.Sound M t) (hle : t ≤ call.now)
    (hcall : call.Honest M) : (deskStep M.step desk (.begin call)).Sound M call.now where
  file := h.file.mono hle
  waiting w hw := by
    rcases List.mem_append.mp hw with hw | hw
    · obtain ⟨hsound,hhonest,hw⟩ := h.waiting w hw
      exact ⟨hsound,hhonest,hw.trans hle⟩
    · rw [List.mem_singleton.mp hw]
      exact ⟨h.file.mono hle,hcall,le_refl _⟩

theorem Desk.Sound.finish {desk : Desk} {i : ℕ} (h : desk.Sound M t) :
    (deskStep M.step desk (.finish i)).Sound M t := by
  unfold deskStep
  dsimp only
  split
  · exact h
  next cache call hw =>
    obtain ⟨hsound,hcall,hle⟩ := h.waiting _ (List.mem_of_getElem? hw)
    constructor
    · cases hwritten : (loadKlines M.step cache call).bind Loaded.file with
      | none => exact h.file
      | some written =>
        obtain ⟨loaded,hloaded,hfile⟩ := Option.bind_eq_some_iff.mp hwritten
        exact (loadKlines_sound hsound hcall hloaded hfile).mono hle
    · exact fun w hw => h.waiting w (List.mem_of_mem_eraseIdx hw)

theorem Desk.Sound.run {desk : Desk} {es : List Event} (h : desk.Sound M t) (hes : Orderly M t es) :
    (Machine.run (deskStep M.step) desk es).Sound M (lastReading t es) := by
  induction es generalizing t desk with
  | nil => exact h
  | cons e es ih =>
    rw [Machine.run_cons]
    cases e with
    | begin call => exact ih (h.begin hes.1 hes.2.1) hes.2.2
    | finish i => exact ih h.finish hes

/-- However calls overlap and fail, the file has only bars that were closed when the clock was last read,
each once, and every bar that ends at a time it covers; every answer is in order, shows the exchange's
bars, and, where the range is positive and within reach, has each closed one that ends in it, save for
what lies in gaps shorter than one bar. -/
theorem klines_answered (M : Market) (t : ℤ) (bars : List Kline) (hclosed : ∀ k ∈ bars, M.Bar k ∧ k.closeTime<t)
    (hasc : bars.Pairwise fun a b => a.openTime<b.openTime) (es : List Event) (hes : Orderly M t es) :
    Sound M (lastReading t es) (Machine.run (deskStep M.step) ⟨⟨bars,none⟩,[]⟩ es).file ∧
    ∀ w ∈ (Machine.run (deskStep M.step) ⟨⟨bars,none⟩,[]⟩ es).waiting, ∀ loaded,
      loadKlines M.step w.1 w.2=some loaded → Answered M w.1 w.2 loaded.klines := by
  have hstart : Desk.Sound M t ⟨⟨bars,none⟩,[]⟩ := ⟨sound_of_bars hclosed hasc,fun w hw => nomatch hw⟩
  have h := hstart.run hes
  refine ⟨h.file,?_⟩
  intro w hw loaded hloaded
  obtain ⟨hsound,hcall,_⟩ := h.waiting w hw
  exact loadKlines_answered hsound hcall hloaded

/-! Calls one after the other. -/

/-- The file after a call that runs alone. -/
def serve (step : ℤ) (file : CacheFile) (call : Call) : CacheFile :=
  ((loadKlines step file call).bind Loaded.file).getD file

theorem covered_serve {step x : ℤ} {call : Call} (h : Covered (file.covered step) x) :
    Covered ((serve step file call).covered step) x := by
  unfold serve
  cases hloaded : loadKlines step file call with
  | none => exact h
  | some loaded =>
    rcases loadKlines_cases hloaded with ⟨_,rfl⟩ | ⟨bars,fetched,_,rfl⟩
    · exact h
    · cases call.writable with
      | false => exact h
      | true => exact covered_file.mpr (covered_append.mpr (.inl h))

theorem covered_foldl_serve {step x : ℤ} {calls : List Call} (h : Covered (file.covered step) x) :
    Covered ((calls.foldl (serve step) file).covered step) x := by
  induction calls generalizing file with
  | nil => exact h
  | cons call calls ih => exact ih (covered_serve h)

/-- What is free after a call is in a gap that was too short to ask about. -/
theorem free_serve {call : Call} {from_ to_ : ℤ} {s : Span} (hcall : call.Honest M) (hwrite : call.writable=true)
    (hok : (loadKlines M.step file call).isSome) (hpos : 0<call.from_) (hlen : call.to_-call.from_ ≤ reach M.step)
    (hlo : call.from_ ≤ from_) (hhi : to_ ≤ min call.to_ (call.now-1))
    (h : Free ((serve M.step file call).covered M.step) from_ to_ s) : s.to_-s.from_<M.step := by
  by_contra hlong
  have hlower := h.lower
  have hupper := h.upper
  have hfree : Free (file.covered M.step) call.from_ call.to_ s :=
    ⟨by omega,h.nonempty,by omega,fun x hx hcov => h.uncovered x hx (covered_serve hcov)⟩
  obtain ⟨g,hg,hgfrom,hgto⟩ := hfree.gap
  have hmissing : g ∈ missingSpans (file.covered M.step) call.from_ call.to_ M.step :=
    mem_missingSpans.mpr ⟨hg,by omega⟩
  obtain ⟨loaded,hloaded⟩ := Option.isSome_iff_exists.mp hok
  rcases loadKlines_cases hloaded with ⟨hnone,_⟩ | ⟨bars,fetched,hfill,rfl⟩
  · rw [hnone] at hmissing
    cases hmissing
  · have hpast : s.from_<call.now := by
      have := h.nonempty
      omega
    have hfetched := covered_of_fill hcall (missing_bounds hpos hlen) hpast hfill
      (.inr ⟨g,hmissing,hgfrom,h.nonempty.trans hgto⟩)
    apply h.uncovered s.from_ (Span.holds_from h.nonempty)
    unfold serve
    rw [hloaded,Option.bind_some,hwrite]
    exact covered_file.mpr (covered_append.mpr (.inr hfetched))

/-- After a call that came through, and any calls after it, no part of its range that was past then is
asked for again: the file alone answers, whatever the exchange would say. -/
theorem klines_quiet (M : Market) (file : CacheFile) (call : Call) (hcall : call.Honest M) (hwrite : call.writable=true)
    (hok : (loadKlines M.step file call).isSome) (hpos : 0<call.from_) (hlen : call.to_-call.from_ ≤ reach M.step)
    (later : List Call) (again : Call) (hlo : call.from_ ≤ again.from_) (hhi : again.to_ ≤ min call.to_ (call.now-1)) :
    loadKlines M.step ((call::later).foldl (serve M.step) file) again=
      some ⟨sliceBars ((call::later).foldl (serve M.step) file).bars again.from_ again.to_,none⟩ := by
  rw [List.foldl_cons]
  have hnone : missingSpans ((later.foldl (serve M.step) (serve M.step file call)).covered M.step) again.from_ again.to_ M.step=[] := by
    apply List.eq_nil_iff_forall_not_mem.mpr
    intro s hs
    obtain ⟨⟨hfree,_⟩,hlong⟩ := mem_missingSpans.mp hs
    have hshort := free_serve hcall hwrite hok hpos hlen hlo hhi
      ⟨hfree.lower,hfree.nonempty,hfree.upper,fun x hx hcov => hfree.uncovered x hx (covered_foldl_serve hcov)⟩
    omega
  unfold loadKlines
  dsimp only
  rw [hnone]

/-! A market of two bars, the second of which is not closed when the first call is made. -/

def firstBar : Kline := { openTime := 10, close := "7", closeTime := 19 }

def secondBar : Kline := { openTime := 20, close := "8", closeTime := 29 }

def twoBars : Market where
  step := 10
  step_pos := by decide
  Bar b := b=firstBar ∨ b=secondBar
  after_epoch := by rintro b (rfl | rfl) <;> decide
  closeTime_eq := by rintro b (rfl | rfl) <;> decide
  apart := by rintro a b (rfl | rfl) (rfl | rfl) <;> decide
  sole := by rintro a b (rfl | rfl) (rfl | rfl) <;> decide

/-- The exchange at a time when the second bar is under way. -/
def twoServer : Server := fun _ _ q =>
  some ([firstBar,{ secondBar with close := "9" }].filter fun k => ∀ e ∈ q.endTime, k.openTime ≤ e)

def earlyCall : Call := ⟨5,40,25,twoServer,true⟩

theorem earlyCall_honest : earlyCall.Honest twoBars := by
  intro gap page q rows h
  cases h
  refine ⟨25,le_refl _,?_⟩
  have hmem : ∀ k, k ∈ [firstBar,{ secondBar with close := "9" }] → k.openTime ≤ 25 ∧ twoBars.Shows 25 k := by
    intro k hk
    rcases List.mem_pair.mp hk with rfl | rfl
    · exact ⟨by decide,firstBar,.inl rfl,rfl,rfl,fun _ => rfl⟩
    · exact ⟨by decide,secondBar,.inr rfl,rfl,rfl,fun h => absurd h (by decide)⟩
  constructor
  · exact List.Pairwise.filter _ (by decide)
  · intro e he k hk
    exact of_decide_eq_true (List.mem_filter.mp hk).2 e he
  · exact fun k hk => (hmem k (List.mem_filter.mp hk).1).1
  · exact fun k hk => (hmem k (List.mem_filter.mp hk).1).2
  · rintro b (rfl | rfl) _ hend _
    · exact ⟨firstBar,List.mem_filter.mpr ⟨by decide,decide_eq_true hend⟩,rfl⟩
    · exact ⟨{ secondBar with close := "9" },List.mem_filter.mpr ⟨by decide,decide_eq_true hend⟩,rfl⟩

theorem klines_answered_two : ∃ loaded, loadKlines 10 ⟨[],none⟩ earlyCall=some loaded ∧
    loaded.klines=[firstBar,{ secondBar with close := "9" }] ∧ Answered twoBars ⟨[],none⟩ earlyCall loaded.klines := by
  refine ⟨_,rfl,by decide +kernel,?_⟩
  have h := klines_answered twoBars 0 [] (fun k hk => nomatch hk) List.Pairwise.nil [.begin earlyCall]
    ⟨by decide,earlyCall_honest,trivial⟩
  exact h.2 (⟨[],none⟩,earlyCall) List.mem_cons_self _ rfl

theorem klines_quiet_two : loadKlines 10 (serve 10 ⟨[],none⟩ earlyCall) ⟨8,22,60,fun _ _ _ => none,true⟩=
    some ⟨[firstBar],none⟩ :=
  klines_quiet twoBars ⟨[],none⟩ earlyCall earlyCall_honest rfl (by decide +kernel) (by decide) (by decide) []
    ⟨8,22,60,fun _ _ _ => none,true⟩ (by decide) (by decide)

end TradeGate.Klines
