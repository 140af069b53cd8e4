import TradeGate.Model.Klines

/-! A walk back through the pages of the exchange finds every bar of a span, as far as it came. -/
namespace TradeGate.Klines
open Keyed

/-- The bars of a symbol and a time frame as they are in the end, of one length and side by side. -/
structure Market where
  step : ℤ
  step_pos : 0<step
  Bar : Kline → Prop
  after_epoch : ∀ {b}, Bar b → 0<b.openTime
  closeTime_eq : ∀ {b}, Bar b → b.closeTime=b.openTime+step-1
  apart : ∀ {a b}, Bar a → Bar b → a.openTime<b.openTime → a.closeTime<b.openTime
  sole : ∀ {a b}, Bar a → Bar b → a.openTime=b.openTime → a=b

namespace Market

/-- A bar as the exchange shows it at a time: one that is closed is as it will be. -/
def Shows (M : Market) (now : ℤ) (k : Kline) : Prop :=
  ∃ b, M.Bar b ∧ k.openTime=b.openTime ∧ k.closeTime=b.closeTime ∧ (k.closeTime<now → k=b)

/-- The exchange's answer to a query by its clock: the latest bars up to the end, in order; there are
fewer than asked for only when there are no more. -/
structure Answers (M : Market) (clock : ℤ) (q : Query) (rows : List Kline) : Prop where
  ascending : rows.Pairwise fun a b => a.openTime<b.openTime
  ending : ∀ e ∈ q.endTime, ∀ k ∈ rows, k.openTime ≤ e
  started : ∀ k ∈ rows, k.openTime ≤ clock
  shows_ : ∀ k ∈ rows, M.Shows clock k
  recent : ∀ b, M.Bar b → b.openTime ≤ clock → (∀ e ∈ q.endTime, b.openTime ≤ e) →
    (rows.length<q.limit ∨ ∃ k ∈ rows, k.openTime ≤ b.openTime) → ∃ k ∈ rows, k.openTime=b.openTime

/-- Every page that comes was answered at some time from `now` on. -/
def Serves (M : Market) (now : ℤ) (get : ℕ → Query → Option (List Kline)) : Prop :=
  ∀ page q rows, get page q=some rows → ∃ clock, now ≤ clock ∧ M.Answers clock q rows

variable {M : Market} {now : ℤ} {a b k : Kline}

theorem shows_bar (hb : M.Bar b) : M.Shows now b := ⟨b,hb,rfl,rfl,fun _ => rfl⟩

theorem Shows.before {clock : ℤ} (h : M.Shows clock k) (hle : now ≤ clock) : M.Shows now k := by
  obtain ⟨b,hb,hopen,hclose,hfinal⟩ := h
  exact ⟨b,hb,hopen,hclose,fun hlt => hfinal (lt_of_lt_of_le hlt hle)⟩

theorem Shows.eq_of_openTime (h : M.Shows now k) (hb : M.Bar b) (he : k.openTime=b.openTime)
    (hclosed : b.closeTime<now) : k=b := by
  obtain ⟨c,hc,hopen,hclose,hfinal⟩ := h
  have hcb : c=b := M.sole hc hb (hopen ▸ he)
  subst hcb
  exact hfinal (hclose ▸ hclosed)

theorem Shows.bar (h : M.Shows now k) (hclosed : k.closeTime<now) : M.Bar k := by
  obtain ⟨b,hb,_,_,hfinal⟩ := h
  rwa [hfinal hclosed]

/-- A bar that ends at the opening of another or later does not open before it. -/
theorem Shows.openTime_le (h : M.Shows now k) (hb : M.Bar b) (hle : k.openTime ≤ b.closeTime) :
    k.openTime ≤ b.openTime := by
  obtain ⟨c,hc,hopen,_,_⟩ := h
  by_contra hlt
  have happart := M.apart hb hc (by omega)
  omega

end Market

variable {M : Market} {now from_ to_ end_ : ℤ} {prev : Option ℤ} {out : BarMap} {page : Page} {rows : List Kline}
variable {get : ℕ → Query → Option (List Kline)}

/-- What a walk has when it asks for its next page. -/
structure Walking (M : Market) (now from_ to_ : ℤ) (out : BarMap) (end_ : ℤ) (prev : Option ℤ) : Prop where
  shows_ : ∀ k ∈ out.rows, M.Shows now k
  complete : ∀ b, M.Bar b → b.openTime<now → b.openTime ≤ to_ → end_<b.openTime →
    ∃ k ∈ out.rows, k.openTime=b.openTime
  first : prev=none → out.rows=[]
  least : ∀ p ∈ prev, end_=p-1 ∧ from_<p ∧ out.rows ≠ [] ∧ ∀ k ∈ out.rows, p ≤ k.openTime

theorem Walking.start : Walking M now from_ to_ .empty to_ none where
  shows_ _ h := nomatch h
  complete _ _ _ hle hlt := absurd hle (not_le.mpr hlt)
  first _ := rfl
  least _ h := nomatch h

/-- What a finished walk found: every bar of the span that it covers. -/
structure Found (M : Market) (now : ℤ) (gap : Span) (page : Page) : Prop where
  ascending : page.bars.Pairwise fun a b => a.openTime<b.openTime
  shows_ : ∀ k ∈ page.bars, M.Shows now k
  complete : ∀ b, M.Bar b → b.openTime<now → b.openTime ≤ gap.to_ → page.left gap ≤ b.closeTime →
    ∃ k ∈ page.bars, k.openTime=b.openTime

theorem Walking.found (hshows : ∀ k ∈ out.rows, M.Shows now k)
    (h : ∀ b, M.Bar b → b.openTime<now → b.openTime ≤ to_ → from_ ≤ b.closeTime → ∃ k ∈ out.rows, k.openTime=b.openTime) :
    Found M now ⟨from_,to_⟩ ⟨out.inOrder,true⟩ where
  ascending := out.inOrder_pairwise
  shows_ k hk := hshows k (Table.mem_inOrder.mp hk)
  complete b hb hstarted hle hleft := by
    obtain ⟨k,hk,he⟩ := h b hb hstarted hle hleft
    exact ⟨k,Table.mem_inOrder.mpr hk,he⟩

/-- At the last page the walk has every bar from its earliest one on. -/
theorem Walking.capped (h : Walking M now from_ to_ out end_ prev) {p : ℤ} (hp : prev=some p) :
    Found M now ⟨from_,to_⟩ ⟨out.inOrder,false⟩ where
  ascending := out.inOrder_pairwise
  shows_ k hk := h.shows_ k (Table.mem_inOrder.mp hk)
  complete b hb hstarted hle hleft := by
    obtain ⟨hend,_,hne,hleast⟩ := h.least p hp
    cases hrows : out.inOrder with
    | nil =>
      have hmem : ∀ k, k ∉ out.rows := fun k hk => by simpa [hrows] using Table.mem_inOrder.mpr hk
      exact absurd (List.eq_nil_iff_forall_not_mem.mpr hmem) hne
    | cons m ms =>
      have hm : m ∈ out.rows := Table.mem_inOrder.mp (hrows ▸ List.mem_cons_self)
      have hmleft : m.openTime ≤ b.closeTime := by simpa [Page.left,hrows] using hleft
      have hmb := (h.shows_ m hm).openTime_le hb hmleft
      have hpm := hleast m hm
      obtain ⟨k,hk,he⟩ := h.complete b hb hstarted hle (by omega)
      exact ⟨k,hrows ▸ Table.mem_inOrder.mpr hk,he⟩

theorem mem_klinesQuery {limit : ℕ} {e : ℤ} : e ∈ (klinesQuery limit end_).endTime ↔ end_ ≠ 0 ∧ e=end_ := by
  unfold klinesQuery
  split <;> simp_all [eq_comm]

/-- A page fills the bars down to its earliest, and those above stay. -/
theorem Walking.down (h : Walking M now from_ to_ out end_ prev) {clock : ℤ} (hclock : now ≤ clock)
    (hrows : M.Answers clock (klinesQuery 1500 end_) rows) {b : Kline} (hb : M.Bar b) (hstarted : b.openTime<now)
    (hle : b.openTime ≤ to_) (hdown : rows.length<1500 ∨ ∃ k ∈ rows, k.openTime ≤ b.openTime) :
    ∃ k ∈ (rows.foldl Table.upsert out).rows, k.openTime=b.openTime := by
  apply Table.exists_key_foldl
  by_cases habove : end_<b.openTime
  · obtain ⟨k,hk,he⟩ := h.complete b hb hstarted hle habove
    exact ⟨k,.inl hk,he⟩
  · obtain ⟨k,hk,he⟩ := hrows.recent b hb (by omega) (by
      intro e he
      rw [(mem_klinesQuery.mp he).2]
      exact not_lt.mp habove) hdown
    exact ⟨k,.inr hk,he⟩

theorem Walking.shows_foldl (h : Walking M now from_ to_ out end_ prev) {clock : ℤ} (hclock : now ≤ clock)
    (hrows : M.Answers clock (klinesQuery 1500 end_) rows) :
    ∀ k ∈ (rows.foldl Table.upsert out).rows, M.Shows now k := by
  intro k hk
  rcases Table.mem_of_mem_foldl hk with hk | hk
  · exact h.shows_ k hk
  · exact (hrows.shows_ k hk).before hclock

/-- A walk that ends has found what it covers, whatever page it ended at. -/
theorem walk_found (hget : M.Serves now get) {more n : ℕ}
    (h : Walking M now from_ to_ out end_ prev) (hmore : more=0 → prev.isSome)
    (hwalk : walk get from_ more n out end_ prev=some page) : Found M now ⟨from_,to_⟩ page := by
  induction more generalizing n out end_ prev with
  | zero =>
    obtain ⟨p,hp⟩ := Option.isSome_iff_exists.mp (hmore rfl)
    rw [walk] at hwalk
    cases hwalk
    exact h.capped hp
  | succ more ih =>
    rw [walk] at hwalk
    cases hrows : get n (klinesQuery 1500 end_) with
    | none => simp [hrows] at hwalk
    | some rows =>
      obtain ⟨clock,hclock,hanswers⟩ := hget n _ rows hrows
      rw [hrows] at hwalk
      cases rows with
      | nil =>
        -- nothing opens at the end or before it
        cases hwalk
        refine Walking.found h.shows_ ?_
        intro b hb hstarted hle _
        exact h.down hclock hanswers hb hstarted hle (.inl (by simp))
      | cons row rows =>
        dsimp only at hwalk
        have hshows := h.shows_foldl hclock hanswers
        have hearliest : ∀ k ∈ row::rows, row.openTime ≤ k.openTime := by
          intro k hk
          rcases List.mem_cons.mp hk with rfl | hk
          · exact le_refl _
          · exact le_of_lt ((List.pairwise_cons.mp hanswers.ascending).1 k hk)
        split at hwalk
        next hstop =>
          cases hwalk
          refine Walking.found hshows ?_
          intro b hb hstarted hle hfrom
          rcases hstop with hstop | ⟨p,hp,hstop⟩
          · have hrow := (hanswers.shows_ row List.mem_cons_self).openTime_le hb (hstop.trans hfrom)
            exact h.down hclock hanswers hb hstarted hle (.inr ⟨row,List.mem_cons_self,hrow⟩)
          · -- the cursor did not move: the query had no end, and no bar opens that early
            have hzero : end_=0 := by
              by_contra hne
              have hend := hanswers.ending end_ (mem_klinesQuery.mpr ⟨hne,rfl⟩) row List.mem_cons_self
              have := (h.least p hp).1
              omega
            obtain ⟨k,hk,he⟩ := h.complete b hb hstarted hle (hzero ▸ M.after_epoch hb)
            exact Table.exists_key_foldl ⟨k,.inl hk,he⟩
        next hgo =>
          push Not at hgo
          refine ih ?_ (fun _ => rfl) hwalk
          refine ⟨hshows,?_,(nomatch ·),?_⟩
          · intro b hb hstarted hle hlt
            exact h.down hclock hanswers hb hstarted hle (.inr ⟨row,List.mem_cons_self,by omega⟩)
          · rintro p ⟨⟩
            refine ⟨rfl,hgo.1,?_,?_⟩
            · obtain ⟨k,hk,_⟩ : ∃ k ∈ ((row::rows).foldl Table.upsert out).rows, k.openTime=row.openTime :=
                Table.exists_key_foldl ⟨row,.inr List.mem_cons_self,rfl⟩
              exact List.ne_nil_of_mem hk
            · intro k hk
              rcases Table.mem_of_mem_foldl hk with hk | hk
              · cases hprev : prev with
                | none =>
                  rw [h.first hprev] at hk
                  cases hk
                | some p =>
                  have hp := (h.least p hprev).2.2.2 k hk
                  have hmoved := hgo.2 p hprev
                  omega
              · exact hearliest k hk

theorem fetchKlineSpan_found {gap : Span} (hget : M.Serves now get)
    (h : fetchKlineSpan get gap.from_ gap.to_=some page) : Found M now gap page :=
  walk_found hget Walking.start (fun h : 200=0 => nomatch h) h

/-! The pages suffice: each full page takes the walk a fixed time back. -/

theorem rows_apart {clock bound : ℤ} {row : Kline} (hasc : (row::rows).Pairwise fun a b => a.openTime<b.openTime)
    (hshows : ∀ k ∈ row::rows, M.Shows clock k) (hle : ∀ k ∈ row::rows, k.openTime ≤ bound) :
    row.openTime+rows.length*M.step ≤ bound := by
  induction rows generalizing row with
  | nil => simpa using hle row List.mem_cons_self
  | cons next rows ih =>
    obtain ⟨hfirst,hrest⟩ := List.pairwise_cons.mp hasc
    obtain ⟨a,ha,hopena,_⟩ := hshows row List.mem_cons_self
    obtain ⟨b,hb,hopenb,_⟩ := hshows next (List.mem_cons_of_mem _ List.mem_cons_self)
    have hlt := hfirst next List.mem_cons_self
    have hapart := M.apart ha hb (by omega)
    have hclose := M.closeTime_eq ha
    have h := ih hrest (fun k hk => hshows k (List.mem_cons_of_mem _ hk)) (fun k hk => hle k (List.mem_cons_of_mem _ hk))
    rw [List.length_cons,Nat.cast_succ,add_mul,one_mul]
    omega

/-- Where the walk goes on after a page: a fixed time back, or where nothing is left. -/
theorem page_back {clock : ℤ} {row : Kline} (hpos : 0<end_)
    (hrows : M.Answers clock (klinesQuery 1500 end_) (row::rows)) :
    row.openTime-1+(1499*M.step+1) ≤ end_ ∨ ∀ b, M.Bar b → row.openTime-1<b.openTime := by
  have hquery : end_ ∈ (klinesQuery 1500 end_).endTime := mem_klinesQuery.mpr ⟨by omega,rfl⟩
  have hbound := hrows.ending end_ hquery
  by_cases hfull : (row::rows).length<1500
  · right
    intro b hb
    by_contra hlt
    have hrow := hbound row List.mem_cons_self
    have hclock := hrows.started row List.mem_cons_self
    obtain ⟨k,hk,he⟩ := hrows.recent b hb (by omega) (by
      intro e he
      rw [(mem_klinesQuery.mp he).2]
      omega) (.inl hfull)
    rcases List.mem_cons.mp hk with rfl | hk
    · omega
    · have := (List.pairwise_cons.mp hrows.ascending).1 k hk
      omega
  · left
    have hback := rows_apart hrows.ascending hrows.shows_ hbound
    have hlen : (1499 : ℤ) ≤ rows.length := by
      rw [List.length_cons] at hfull
      omega
    have := mul_le_mul_of_nonneg_right hlen M.step_pos.le
    omega

/-- Either the pages that are left go back far enough, or there is nothing to come. -/
theorem walk_reaches (hget : M.Serves now get) (hpos : 0<from_) {more n : ℕ} (hend : from_ ≤ end_)
    (h : end_-from_ ≤ more*(1499*M.step+1) ∨ ∀ b, M.Bar b → end_<b.openTime)
    (hwalk : walk get from_ (more+1) n out end_ prev=some page) : page.reachedStart=true := by
  induction more generalizing n out end_ prev with
  | zero =>
    rw [walk] at hwalk
    split at hwalk
    · cases hwalk
    · cases hwalk
      rfl
    next row rows hrows =>
      obtain ⟨clock,_,hanswers⟩ := hget _ _ _ hrows
      have hrow := hanswers.ending end_ (mem_klinesQuery.mpr ⟨by omega,rfl⟩) row List.mem_cons_self
      dsimp only at hwalk
      rw [if_pos] at hwalk
      · cases hwalk
        rfl
      · left
        rcases h with h | h
        · simp only [Nat.cast_zero,zero_mul] at h
          omega
        · obtain ⟨b,hb,hopen,_⟩ := hanswers.shows_ row List.mem_cons_self
          have := h b hb
          omega
  | succ more ih =>
    rw [walk] at hwalk
    split at hwalk
    · cases hwalk
    · cases hwalk
      rfl
    next row rows hrows =>
      obtain ⟨clock,_,hanswers⟩ := hget _ _ _ hrows
      dsimp only at hwalk
      split at hwalk
      · cases hwalk
        rfl
      next hgo =>
        push Not at hgo
        refine ih (by omega) ?_ hwalk
        rcases h with h | h
        · rw [Nat.cast_succ,add_mul,one_mul] at h
          exact (page_back (by omega) hanswers).imp_left fun _ => by omega
        · -- no bar is left to be shown
          obtain ⟨b,hb,hopen,_⟩ := hanswers.shows_ row List.mem_cons_self
          have hrow := hanswers.ending end_ (mem_klinesQuery.mpr ⟨by omega,rfl⟩) row List.mem_cons_self
          have := h b hb
          omega

/-- The span that two hundred pages are sure to cover. -/
def reach (step : ℤ) : ℤ := 298301*step

theorem fetchKlineSpan_reaches {gap : Span} (hget : M.Serves now get) (hpos : 0<gap.from_) (hne : gap.from_ ≤ gap.to_)
    (hlen : gap.to_-gap.from_ ≤ reach M.step) (h : fetchKlineSpan get gap.from_ gap.to_=some page) :
    page.reachedStart=true := by
  refine walk_reaches hget hpos hne (.inl ?_) h
  unfold reach at hlen
  omega

end TradeGate.Klines
