import Mathlib.Data.Rat.Cast.Order
import Mathlib.Data.Real.Basic
import TradeGate.Outcome.Reflection
import TradeGate.Touch.First

/-! Orders executed along price paths: what an order comes to when the price is known at every moment
and not by the open, high, low and close of its bars alone. -/
namespace TradeGate.Outcomes
open Set Touch

/-- A continuous price path through a bar, over the time from 0 to 1. -/
structure Follows (b : Kline ℚ) (p : ℝ → ℝ) : Prop where
  continuous : ContinuousOn p (Icc 0 1)
  opens : p 0=b.openPrice
  closes : p 1=b.close
  above : ∀ t, 0 ≤ t → t ≤ 1 → (b.low : ℝ) ≤ p t
  below : ∀ t, 0 ≤ t → t ≤ 1 → p t ≤ b.high
  low : ∃ t, 0 ≤ t ∧ t ≤ 1 ∧ p t=b.low
  high : ∃ t, 0 ≤ t ∧ t ≤ 1 ∧ p t=b.high

/-- The prices at which a limit fills. -/
def fillSet (d : Direction) (lim : ℝ) : Set ℝ := {x | NoBetter d x lim}

/-- The prices at which a position is closed by its stop or its take-profit. -/
def exitSet (d : Direction) (stop : ℝ) (tp : Option ℝ) : Set ℝ :=
  {x | NoBetter d x stop ∨ ∃ y, tp=some y ∧ NoBetter d y x}

/-- A limit order fills at its first touch: the price, the time in the bar, and the paths from that bar
on.  Where a bar opens beyond the limit the price is the open. -/
inductive Fills (C : Set ℝ) : List (ℝ → ℝ) → ℝ → ℝ → List (ℝ → ℝ) → Prop
  | here {p ps τ} (touch : FirstAt p C 0 τ) : Fills C (p::ps) (p τ) τ (p::ps)
  | later {p ps f s rest} (untouched : ∀ t, 0 ≤ t → t ≤ 1 → p t ∉ C) (fills : Fills C ps f s rest) :
      Fills C (p::ps) f s rest

/-- A position is closed at the first touch after the time `s` of the first path, at the price there,
else at the last close. -/
inductive Exits (C : Set ℝ) : ℝ → List (ℝ → ℝ) → ℝ → Prop
  | touched {s p ps τ} (touch : FirstAt p C s τ) : Exits C s (p::ps) (p τ)
  | passed {s p q ps x} (untouched : ∀ t, s ≤ t → t ≤ 1 → p t ∉ C) (exits : Exits C 0 (q::ps) x) :
      Exits C s (p::q::ps) x
  | horizon {s p} (untouched : ∀ t, s ≤ t → t ≤ 1 → p t ∉ C) : Exits C s [p] (p 1)

namespace OutcomeInput

/-- The prices at which the position of the order is closed. -/
def exitSet (inp : OutcomeInput ℚ) : Set ℝ :=
  Outcomes.exitSet inp.direction (inp.stop : ℝ) (inp.tp.map fun x : ℚ => (x : ℝ))

/-- The R of a position of the order. -/
noncomputable def realR (inp : OutcomeInput ℚ) (fill exit : ℝ) : ℝ :=
  sgn inp.direction*(exit-fill)/(sgn inp.direction*(fill-inp.stop))

end OutcomeInput

/-- The order comes to `R` along the paths. -/
inductive Executes (inp : OutcomeInput ℚ) : List (ℝ → ℝ) → ℝ → Prop
  | market {p ps x} (entry : inp.entry=.market) (exits : Exits inp.exitSet 0 (p::ps) x) :
      Executes inp (p::ps) (inp.realR (p 0) x)
  | limit {lim ps f s rest x} (entry : inp.entry=.limit) (limit : inp.limitPrice=some lim)
      (fills : Fills (fillSet inp.direction lim) ps f s rest) (exits : Exits inp.exitSet s rest x) :
      Executes inp ps (inp.realR f x)

/-- Whatever path the price takes, the order comes to at least the R that is reported. -/
def Pessimistic (inp : OutcomeInput ℚ) : Prop :=
  ∀ ps, List.Forall₂ Follows inp.bars ps → ∀ R, Executes inp ps R →
    ∀ r, (simulateOutcome inp).r=some r → (r : ℝ) ≤ R

section
variable {b : Kline ℚ} {p : ℝ → ℝ} {C : Set ℝ} {s x : ℝ} {ps rest : List (ℝ → ℝ)}

theorem isClosed_fillSet (d : Direction) (lim : ℝ) : IsClosed (fillSet d lim) := by
  cases d
  · exact isClosed_Iic
  · exact isClosed_Ici

theorem isClosed_exitSet (d : Direction) (stop : ℝ) (tp : Option ℝ) :
    IsClosed (Outcomes.exitSet d stop tp) := by
  have hstop := isClosed_fillSet d stop
  cases tp with
  | none => simpa [Outcomes.exitSet,fillSet] using hstop
  | some y =>
    have htp : IsClosed {x : ℝ | NoBetter d y x} := by
      cases d
      · exact isClosed_Ici
      · exact isClosed_Iic
    have hset : Outcomes.exitSet d stop (some y)=fillSet d stop ∪ {x | NoBetter d y x} := by
      ext x
      simp [Outcomes.exitSet,fillSet]
    rw [hset]
    exact hstop.union htp

/-- A position is closed somewhere along the paths. -/
theorem exists_exits (hC : IsClosed C) (hp : ∀ p ∈ ps, ContinuousOn p (Icc 0 1)) (hs : 0 ≤ s)
    (hne : ps ≠ []) : ∃ x, Exits C s ps x := by
  induction ps generalizing s with
  | nil => exact absurd rfl hne
  | cons p ps ih =>
    obtain ⟨hpc,hps⟩ := List.forall_mem_cons.mp hp
    by_cases htouch : ∃ t, s ≤ t ∧ t ≤ 1 ∧ p t ∈ C
    · obtain ⟨τ,hτ⟩ := exists_firstAt hpc hC hs htouch
      exact ⟨p τ,.touched hτ⟩
    · have hun : ∀ t, s ≤ t → t ≤ 1 → p t ∉ C := fun t hst ht hmem => htouch ⟨t,hst,ht,hmem⟩
      cases ps with
      | nil => exact ⟨p 1,.horizon hun⟩
      | cons q ps =>
        obtain ⟨x,hx⟩ := ih hps le_rfl (by simp)
        exact ⟨x,.passed hun hx⟩

theorem Exits.unique {y : ℝ} (h : Exits C s ps x) (h' : Exits C s ps y) : x=y := by
  induction h with
  | touched touch =>
    cases h' with
    | touched touch' => rw [touch.unique touch']
    | passed untouched => exact absurd touch.1.2.2 (untouched _ touch.1.1 touch.1.2.1)
    | horizon untouched => exact absurd touch.1.2.2 (untouched _ touch.1.1 touch.1.2.1)
  | passed untouched _ ih =>
    cases h' with
    | touched touch => exact absurd touch.1.2.2 (untouched _ touch.1.1 touch.1.2.1)
    | passed _ exits => exact ih exits
  | horizon untouched =>
    cases h' with
    | touched touch => exact absurd touch.1.2.2 (untouched _ touch.1.1 touch.1.2.1)
    | horizon => rfl

theorem Fills.unique {f g u : ℝ} {rest' : List (ℝ → ℝ)} (h : Fills C ps f s rest)
    (h' : Fills C ps g u rest') : f=g ∧ s=u ∧ rest=rest' := by
  induction h with
  | here touch =>
    cases h' with
    | here touch' =>
      rw [touch.unique touch']
      exact ⟨rfl,rfl,rfl⟩
    | later untouched => exact absurd touch.1.2.2 (untouched _ touch.1.1 touch.1.2.1)
  | later untouched _ ih =>
    cases h' with
    | here touch => exact absurd touch.1.2.2 (untouched _ touch.1.1 touch.1.2.1)
    | later _ fills => exact ih fills

theorem continuousOn_of_follows {bars : List (Kline ℚ)} (h : List.Forall₂ Follows bars ps) :
    ∀ p ∈ ps, ContinuousOn p (Icc 0 1) := by
  induction h with
  | nil => simp
  | cons hp _ ih => exact List.forall_mem_cons.mpr ⟨hp.continuous,ih⟩

/-- A path through the bar touches the limit that the bar touches. -/
theorem Follows.exists_mem_fillSet {d : Direction} {lim : ℚ} (hp : Follows b p)
    (hhit : hitStop d lim b) : ∃ u, 0 ≤ u ∧ u ≤ 1 ∧ p u ∈ fillSet d lim := by
  cases d with
  | long =>
    obtain ⟨u,hu,hu',hpu⟩ := hp.low
    refine ⟨u,hu,hu',show p u ≤ lim from ?_⟩
    rw [hpu]
    exact_mod_cast of_decide_eq_true hhit
  | short =>
    obtain ⟨u,hu,hu',hpu⟩ := hp.high
    refine ⟨u,hu,hu',show (lim : ℝ) ≤ p u from ?_⟩
    rw [hpu]
    exact_mod_cast of_decide_eq_true hhit

/-- A limit that a bar touches fills along the paths. -/
theorem exists_fills_of_hit {bars : List (Kline ℚ)} {d : Direction} {lim : ℚ}
    (h : List.Forall₂ Follows bars ps) (hhit : ∃ b ∈ bars, hitStop d lim b) :
    ∃ f s rest, Fills (fillSet d lim) ps f s rest ∧ 0 ≤ s ∧ rest ≠ [] ∧ ∀ p ∈ rest, p ∈ ps := by
  induction h with
  | nil =>
    obtain ⟨b,hb,-⟩ := hhit
    cases hb
  | cons hp hrest ih =>
    rename_i b p bars ps
    by_cases htouch : ∃ u, 0 ≤ u ∧ u ≤ 1 ∧ p u ∈ fillSet d lim
    · obtain ⟨τ,hτ⟩ := exists_firstAt hp.continuous (isClosed_fillSet d lim) le_rfl htouch
      exact ⟨_,_,_,.here hτ,hτ.1.1,by simp,fun q hq => hq⟩
    · have hnot : ¬hitStop d lim b := fun hb => htouch (hp.exists_mem_fillSet hb)
      obtain ⟨c,hc,hhit⟩ := hhit
      obtain rfl | hc := List.mem_cons.mp hc
      · exact absurd hhit hnot
      · obtain ⟨f,s,rest,hf,hs,hne,hmem⟩ := ih ⟨c,hc,hhit⟩
        have hun : ∀ u, 0 ≤ u → u ≤ 1 → p u ∉ fillSet d lim :=
          fun u hu hu' hmem => htouch ⟨u,hu,hu',hmem⟩
        exact ⟨f,s,rest,.later hun hf,hs,hne,fun q hq => List.mem_cons_of_mem _ (hmem q hq)⟩

end
end TradeGate.Outcomes

/-! A long position against the paths through its bars: the exit of the walk is no better than the exit
along any path that starts with the bar. -/
namespace TradeGate.Outcomes
open Set Touch

/-- The prices at which the position is closed. -/
def OpenTrade.exitSet (t : OpenTrade ℚ) : Set ℝ :=
  Outcomes.exitSet t.direction (t.stop : ℝ) (t.tp.map fun x : ℚ => (x : ℝ))

/-- The price at which the walk leaves the trade, `close` at the horizon. -/
def OpenTrade.leaves (t : OpenTrade ℚ) (bars : List (Kline ℚ)) (close : ℚ) : ℚ :=
  ((walkTrade t 0 bars).2.map fun x => x.2.price).getD close

/-- The target is reached in a bar before any bar reaches the stop, or at an open. -/
def TargetFirst {K : Type} [LinearOrder K] (d : Direction) (stop tp : K) : List (Kline K) → Prop
  | [] => False
  | b::bars => NoBetter d tp b.openPrice ∨
      ¬hitStop d stop b ∧ (hitTp d tp b ∨ TargetFirst d stop tp bars)

section
variable {t : OpenTrade ℚ} {b : Kline ℚ} {bars : List (Kline ℚ)} {p : ℝ → ℝ} {ps : List (ℝ → ℝ)}
  {e : Exit ℚ} {s x τ : ℝ} {close : ℚ}

theorem mem_exitSet_long (ht : t.direction=.long) :
    x ∈ t.exitSet ↔ x ≤ t.stop ∨ ∃ tp : ℚ, t.tp=some tp ∧ (tp : ℝ) ≤ x := by
  simp only [OpenTrade.exitSet,Outcomes.exitSet,ht,NoBetter,mem_ofPred_eq,Option.map_eq_some_iff]
  constructor
  · rintro (h | ⟨_,⟨tp,htp,rfl⟩,h⟩)
    · exact .inl h
    · exact .inr ⟨tp,htp,h⟩
  · rintro (h | ⟨tp,htp,h⟩)
    · exact .inl h
    · exact .inr ⟨_,⟨tp,htp,rfl⟩,h⟩

theorem walkTrade_index (t : OpenTrade ℚ) (i : ℕ) (bars : List (Kline ℚ)) :
    (walkTrade t i bars).2.map (fun x => x.2)=(walkTrade t 0 bars).2.map fun x => x.2 := by
  induction bars generalizing t i with
  | nil => rfl
  | cons b bars ih =>
    rw [walkTrade,walkTrade,stepTrade_eq]
    cases t.exit b with
    | none =>
      dsimp only
      rw [ih (t.marked b) (i+1),ih (t.marked b) (0+1)]
    | some e => rfl

theorem leaves_index (t : OpenTrade ℚ) (i : ℕ) (bars : List (Kline ℚ)) (close : ℚ) :
    ((walkTrade t i bars).2.map fun x => x.2.price).getD close=t.leaves bars close := by
  have h := congrArg (fun o => (o.map Exit.price).getD close) (walkTrade_index t i bars)
  simpa only [Option.map_map,Function.comp_def,OpenTrade.leaves] using h

theorem leaves_nil : t.leaves [] close=close := rfl

theorem leaves_of_exit (h : t.exit b=some e) : t.leaves (b::bars) close=e.price := by
  rw [OpenTrade.leaves,walkTrade,stepTrade_eq,h]
  rfl

theorem leaves_of_none (h : t.exit b=none) :
    t.leaves (b::bars) close=(t.marked b).leaves bars close := by
  rw [OpenTrade.leaves,walkTrade,stepTrade_eq,h]
  exact leaves_index (t.marked b) (0+1) bars close

/-- A long position is closed in a bar as the bar touches its stop or its target. -/
theorem exit_long (ht : t.direction=.long) : t.exit b=
    if b.low ≤ t.stop then
      some ⟨if b.openPrice<t.stop then b.openPrice else t.stop,.stop,
        if t.tp.any fun tp => tp ≤ b.high then .bothTouched
        else if b.openPrice<t.stop then .gappedStop else .touchedStop⟩
    else t.tp.bind fun tp => if tp ≤ b.high then
      some ⟨if tp<b.openPrice then b.openPrice else tp,.tp,
        if tp<b.openPrice then .gappedTp else .touchedTp⟩ else none := by
  simp only [OpenTrade.exit,ht,hitStop,hitTp,gapsStop,gapsTp,decide_eq_true_eq]

/-- What the walk passes, every path through the bar passes. -/
theorem notMem_of_exit_none (ht : t.direction=.long) (hp : Follows b p) (h : t.exit b=none)
    {u : ℝ} (hu : 0 ≤ u) (hu' : u ≤ 1) : p u ∉ t.exitSet := by
  rw [exit_long ht] at h
  rw [mem_exitSet_long ht]
  split at h
  next => cases h
  next hstop =>
    rintro (hlow | ⟨tp,htp,hhigh⟩)
    · exact hstop (by exact_mod_cast (hp.above u hu hu').trans hlow)
    · rw [htp,Option.bind_some] at h
      split at h
      next => cases h
      next htp' => exact htp' (by exact_mod_cast hhigh.trans (hp.below u hu hu'))

/-- Where the walk leaves, every path through the bar touches. -/
theorem exists_mem_of_exit (ht : t.direction=.long) (hp : Follows b p) (h : t.exit b=some e) :
    ∃ u, 0 ≤ u ∧ u ≤ 1 ∧ p u ∈ t.exitSet := by
  rw [exit_long ht] at h
  split at h
  next hstop =>
    obtain ⟨u,hu,hu',hlow⟩ := hp.low
    refine ⟨u,hu,hu',(mem_exitSet_long ht).mpr (.inl ?_)⟩
    rw [hlow]
    exact_mod_cast hstop
  next =>
    obtain ⟨tp,htp,h⟩ := Option.bind_eq_some_iff.mp h
    split at h
    next hhigh =>
      obtain ⟨u,hu,hu',hpu⟩ := hp.high
      refine ⟨u,hu,hu',(mem_exitSet_long ht).mpr (.inr ⟨tp,htp,?_⟩)⟩
      rw [hpu]
      exact_mod_cast hhigh
    next => cases h

/-- The first touch of a path through a bar is no worse than the exit of the bar. -/
theorem exit_le_first (ht : t.direction=.long) (hp : Follows b p) (h : t.exit b=some e)
    (hτ : FirstAt p t.exitSet 0 τ) : (e.price : ℝ) ≤ p τ := by
  rw [exit_long ht] at h
  split at h
  next hstop =>
    cases h
    dsimp only
    split
    next hgap =>
      have hopen : p 0 ∈ t.exitSet := by
        rw [mem_exitSet_long ht,hp.opens]
        exact .inl (by exact_mod_cast hgap.le)
      rw [hτ.unique (.of_start zero_le_one hopen),hp.opens]
    next hgap =>
      refine hτ.le hp.continuous le_rfl ((mem_exitSet_long ht).mpr (.inl le_rfl)) ?_
      rw [hp.opens]
      exact_mod_cast not_lt.mp hgap
  next hstop =>
    obtain ⟨tp,htp,h⟩ := Option.bind_eq_some_iff.mp h
    split at h
    next hhigh =>
      cases h
      dsimp only
      split
      next hgap =>
        have hopen : p 0 ∈ t.exitSet := by
          rw [mem_exitSet_long ht,hp.opens]
          exact .inr ⟨tp,htp,by exact_mod_cast hgap.le⟩
        rw [hτ.unique (.of_start zero_le_one hopen),hp.opens]
      next =>
        obtain ⟨⟨hτ0,hτ1,hmem⟩,-⟩ := hτ
        obtain hlow | ⟨y,hy,hy'⟩ := (mem_exitSet_long ht).mp hmem
        · exact absurd (by exact_mod_cast (hp.above τ hτ0 hτ1).trans hlow) hstop
        · cases htp.symm.trans hy
          exact hy'
    next => cases h

/-- From the open of a bar on, no path does worse than the walk. -/
theorem leaves_le (ht : t.direction=.long) (hbars : List.Forall₂ Follows bars ps)
    (hx : Exits t.exitSet 0 ps x) {last : Kline ℚ} (hlast : bars.getLast?=some last) :
    (t.leaves bars last.close : ℝ) ≤ x := by
  induction hbars generalizing t with
  | nil => cases hlast
  | cons hp hrest ih =>
    rename_i b p bars ps
    cases he : t.exit b with
    | some e =>
      obtain ⟨u,hu,hu',hmem⟩ := exists_mem_of_exit ht hp he
      rw [leaves_of_exit he]
      cases hx with
      | touched touch => exact exit_le_first ht hp he touch
      | passed untouched => exact absurd hmem (untouched u hu hu')
      | horizon untouched => exact absurd hmem (untouched u hu hu')
    | none =>
      rw [leaves_of_none he]
      cases hx with
      | touched touch =>
        exact absurd touch.1.2.2 (notMem_of_exit_none ht hp he touch.1.1 touch.1.2.1)
      | passed untouched exits =>
        cases hrest with
        | cons hq hrest =>
          rename_i c bars
          refine ih (t := t.marked b) ht exits ?_
          simpa using hlast
      | horizon untouched =>
        cases hrest
        cases hlast
        rw [leaves_nil,hp.closes]
        exact le_rfl

end
end TradeGate.Outcomes
