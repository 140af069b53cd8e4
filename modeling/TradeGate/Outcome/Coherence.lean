import Mathlib.Algebra.Order.Field.Basic
import Mathlib.Tactic.Linarith
import Mathlib.Tactic.Ring
import TradeGate.Model.Outcome

/-! The statistics of an outcome belong together, and long and short are treated alike. -/
namespace TradeGate.Outcomes

section
variable {K : Type} [LinearOrder K] {b : Kline K} {d : Direction}

/-- At `a` a trade is no better off than at `b`. -/
def NoBetter (d : Direction) (a b : K) : Prop :=
  match d with
  | .long => a ≤ b
  | .short => b ≤ a

theorem NoBetter.trans {a b c : K} (hab : NoBetter d a b) (hbc : NoBetter d b c) : NoBetter d a c := by
  cases d with
  | long => exact le_trans hab hbc
  | short => exact le_trans hbc hab

theorem hitStop_iff {x : K} : hitStop d x b ↔ NoBetter d (adverse d b) x := by
  cases d <;> simp [hitStop,NoBetter,adverse]

theorem hitTp_iff {x : K} : hitTp d x b ↔ NoBetter d x (favorable d b) := by
  cases d <;> simp [hitTp,NoBetter,favorable]

theorem gapsStop_iff {o x : K} : gapsStop d o x ↔ ¬NoBetter d x o := by
  cases d <;> simp [gapsStop,NoBetter]

theorem gapsTp_iff {o x : K} : gapsTp d o x ↔ ¬NoBetter d o x := by
  cases d <;> simp [gapsTp,NoBetter]

theorem NoBetter.total (d : Direction) (a b : K) : NoBetter d a b ∨ NoBetter d b a := by
  cases d with
  | long => exact le_total a b
  | short => exact le_total b a

theorem NoBetter.refl (d : Direction) (a : K) : NoBetter d a a :=
  (NoBetter.total d a a).elim id id

theorem NoBetter.of_not {a b : K} (h : ¬NoBetter d a b) : NoBetter d b a :=
  (NoBetter.total d a b).resolve_left h

theorem adverse_open (hb : b.WellFormed) : NoBetter d (adverse d b) b.openPrice := by
  cases d with
  | long => exact hb.low_open
  | short => exact hb.open_high

theorem open_favorable (hb : b.WellFormed) : NoBetter d b.openPrice (favorable d b) := by
  cases d with
  | long => exact hb.open_high
  | short => exact hb.low_open

theorem adverse_close (hb : b.WellFormed) : NoBetter d (adverse d b) b.close := by
  cases d with
  | long => exact hb.low_close
  | short => exact hb.close_high

theorem close_favorable (hb : b.WellFormed) : NoBetter d b.close (favorable d b) := by
  cases d with
  | long => exact hb.close_high
  | short => exact hb.low_close

end

section
variable {K : Type} [Field K] [LinearOrder K] {t u : OpenTrade K} {b : Kline K} {e : Exit K}

/-- The excursions and the bars of a trade after one more bar. -/
def OpenTrade.marked (t : OpenTrade K) (b : Kline K) : OpenTrade K :=
  { t with
    barsHeld := t.barsHeld+1
    maeR := min t.maeR (tradeR t (adverse t.direction b))
    mfeR := max t.mfeR (tradeR t (favorable t.direction b)) }

/-- The exit of a trade at a bar. -/
def OpenTrade.exit (t : OpenTrade K) (b : Kline K) : Option (Exit K) :=
  if hitStop t.direction t.stop b then
    some ⟨if gapsStop t.direction b.openPrice t.stop then b.openPrice else t.stop,.stop,
      if t.tp.any fun tp => hitTp t.direction tp b then .bothTouched
      else if gapsStop t.direction b.openPrice t.stop then .gappedStop else .touchedStop⟩
  else t.tp.bind fun tp => if hitTp t.direction tp b then
    some ⟨if gapsTp t.direction b.openPrice tp then b.openPrice else tp,.tp,
      if gapsTp t.direction b.openPrice tp then .gappedTp else .touchedTp⟩ else none

theorem stepTrade_eq (t : OpenTrade K) (b : Kline K) : stepTrade t b=(t.marked b,t.exit b) := by
  obtain ⟨d,fill,stop,tp,distance,mae,mfe,held⟩ := t
  cases tp with
  | none =>
    dsimp only [stepTrade,OpenTrade.exit]
    split <;> rfl
  | some tp =>
    dsimp only [stepTrade,OpenTrade.exit,Option.bind_some]
    split
    next => rfl
    next => split <;> rfl

omit [Field K] in
/-- The exit of a bar lies in the bar: at the stop or beyond it, at the target or beyond it. -/
theorem exit_cases (hb : b.WellFormed) (h : t.exit b=some e) :
    NoBetter t.direction (adverse t.direction b) e.price ∧
    NoBetter t.direction e.price (favorable t.direction b) ∧
    (e.status=.stop → NoBetter t.direction e.price t.stop) ∧
    (e.status=.tp → ∃ tp, t.tp=some tp ∧ NoBetter t.direction tp e.price) := by
  unfold OpenTrade.exit at h
  split at h
  next hstop =>
    rw [hitStop_iff] at hstop
    cases h
    dsimp only
    by_cases hgap : gapsStop t.direction b.openPrice t.stop
    · rw [if_pos hgap]
      rw [gapsStop_iff] at hgap
      exact ⟨adverse_open hb,open_favorable hb,fun _ => .of_not hgap,(by intro h; cases h)⟩
    · rw [if_neg hgap]
      rw [gapsStop_iff,not_not] at hgap
      exact ⟨hstop,hgap.trans (open_favorable hb),fun _ => .refl _ _,(by intro h; cases h)⟩
  next =>
    obtain ⟨tp,htp,h⟩ := Option.bind_eq_some_iff.mp h
    split at h
    next hhit =>
      rw [hitTp_iff] at hhit
      cases h
      dsimp only
      by_cases hgap : gapsTp t.direction b.openPrice tp
      · rw [if_pos hgap]
        rw [gapsTp_iff] at hgap
        exact ⟨adverse_open hb,open_favorable hb,(by intro h; cases h),
          fun _ => ⟨tp,htp,.of_not hgap⟩⟩
      · rw [if_neg hgap]
        rw [gapsTp_iff,not_not] at hgap
        exact ⟨(adverse_open hb).trans hgap,hhit,(by intro h; cases h),
          fun _ => ⟨tp,htp,.refl _ _⟩⟩
    next => cases h

end

section
variable {K : Type} [LinearOrder K] {t u : OpenTrade K}

/-- A trade later in its life. -/
structure Later (t u : OpenTrade K) : Prop where
  direction : u.direction=t.direction
  fillPrice : u.fillPrice=t.fillPrice
  stop : u.stop=t.stop
  tp : u.tp=t.tp
  stopDistance : u.stopDistance=t.stopDistance
  maeR : u.maeR ≤ t.maeR
  mfeR : t.mfeR ≤ u.mfeR

theorem Later.refl (t : OpenTrade K) : Later t t := ⟨rfl,rfl,rfl,rfl,rfl,le_rfl,le_rfl⟩

theorem Later.trans {v : OpenTrade K} (h : Later t u) (h' : Later u v) : Later t v where
  direction := h'.direction.trans h.direction
  fillPrice := h'.fillPrice.trans h.fillPrice
  stop := h'.stop.trans h.stop
  tp := h'.tp.trans h.tp
  stopDistance := h'.stopDistance.trans h.stopDistance
  maeR := h'.maeR.trans h.maeR
  mfeR := h.mfeR.trans h'.mfeR

end

section
variable {K : Type} [Field K] [LinearOrder K] {t u : OpenTrade K} {b : Kline K}

theorem later_marked (t : OpenTrade K) (b : Kline K) : Later t (t.marked b) :=
  ⟨rfl,rfl,rfl,rfl,rfl,min_le_left _ _,le_max_left _ _⟩

theorem Later.tradeR (h : Later t u) (px : K) : tradeR u px=Outcomes.tradeR t px := by
  simp only [Outcomes.tradeR,h.direction,h.fillPrice,h.stopDistance]

theorem later_walkTrade (t : OpenTrade K) (i : ℕ) (bars : List (Kline K)) :
    Later t (walkTrade t i bars).1 := by
  induction bars generalizing t i with
  | nil => exact .refl t
  | cons b bars ih =>
    rw [walkTrade,stepTrade_eq]
    cases t.exit b with
    | none => exact (later_marked t b).trans (ih (t.marked b) (i+1))
    | some e => exact later_marked t b

/-- The R of a price lies within the excursions of the trade. -/
def Within (t : OpenTrade K) (px : K) : Prop := t.maeR ≤ tradeR t px ∧ tradeR t px ≤ t.mfeR

theorem Within.later {px : K} (h : Within t px) (hl : Later t u) : Within u px := by
  rw [Within,hl.tradeR]
  exact ⟨hl.maeR.trans h.1,h.2.trans hl.mfeR⟩

end

section
variable {K : Type} [Field K] [LinearOrder K] [IsStrictOrderedRing K] {t u : OpenTrade K}
  {b : Kline K} {e : Exit K}

theorem tradeR_le_tradeR {a c : K} (ht : 0<t.stopDistance) (h : NoBetter t.direction a c) :
    tradeR t a ≤ tradeR t c := by
  unfold tradeR
  apply div_le_div_of_nonneg_right _ ht.le
  cases hd : t.direction <;> rw [hd] at h <;> simp only [NoBetter,sgn] at h ⊢ <;> linarith

/-- Every price of a bar is within the excursions that the bar leaves. -/
theorem within_marked {px : K} (ht : 0<t.stopDistance)
    (hlow : NoBetter t.direction (adverse t.direction b) px)
    (hhigh : NoBetter t.direction px (favorable t.direction b)) : Within (t.marked b) px := by
  rw [Within,(later_marked t b).tradeR]
  exact ⟨(min_le_right _ _).trans (tradeR_le_tradeR ht hlow),
    (tradeR_le_tradeR ht hhigh).trans (le_max_right _ _)⟩

/-- A walk that ends in an exit. -/
theorem walkTrade_exit {bars : List (Kline K)} {i j : ℕ} (hbars : ∀ b ∈ bars, b.WellFormed)
    (ht : 0<t.stopDistance) (h : walkTrade t i bars=(u,some (j,e))) :
    Later t u ∧ i ≤ j ∧ j < i+bars.length ∧ u.barsHeld=t.barsHeld+(j-i)+1 ∧ Within u e.price ∧
    (e.status=.stop → NoBetter t.direction e.price t.stop) ∧
    (e.status=.tp → ∃ tp, t.tp=some tp ∧ NoBetter t.direction tp e.price) := by
  induction bars generalizing t i with
  | nil => cases h
  | cons b bars ih =>
    obtain ⟨hb,hbars⟩ := List.forall_mem_cons.mp hbars
    rw [walkTrade,stepTrade_eq] at h
    split at h
    next v f hs =>
      obtain ⟨rfl,hexit⟩ := Prod.mk.inj hs
      cases h
      obtain ⟨hlow,hhigh,hstop,htp⟩ := exit_cases hb hexit
      refine ⟨later_marked t b,le_rfl,?_,?_,within_marked ht hlow hhigh,hstop,htp⟩
      · simp
      · simp [OpenTrade.marked]
    next v hs =>
      obtain ⟨rfl,-⟩ := Prod.mk.inj hs
      obtain ⟨hl,hij,hj,hheld,hwithin,hstop,htp⟩ :=
        ih hbars (show 0<(t.marked b).stopDistance from ht) h
      refine ⟨(later_marked t b).trans hl,by omega,?_,?_,hwithin,hstop,htp⟩
      · rw [List.length_cons]
        omega
      · rw [hheld]
        simp only [OpenTrade.marked]
        omega

/-- A walk without an exit. -/
theorem walkTrade_none {bars : List (Kline K)} {i : ℕ} (hbars : ∀ b ∈ bars, b.WellFormed)
    (ht : 0<t.stopDistance) (h : walkTrade t i bars=(u,none)) :
    Later t u ∧ u.barsHeld=t.barsHeld+bars.length ∧ ∀ b ∈ bars, Within u b.close := by
  induction bars generalizing t i with
  | nil =>
    cases h
    exact ⟨.refl _,rfl,by simp⟩
  | cons b bars ih =>
    obtain ⟨hb,hbars⟩ := List.forall_mem_cons.mp hbars
    rw [walkTrade,stepTrade_eq] at h
    split at h
    next => cases h
    next v hs =>
      obtain ⟨rfl,-⟩ := Prod.mk.inj hs
      obtain ⟨hl,hheld,hclose⟩ :=
        ih hbars (show 0<(t.marked b).stopDistance from ht) h
      refine ⟨(later_marked t b).trans hl,?_,List.forall_mem_cons.mpr ⟨?_,hclose⟩⟩
      · rw [hheld,List.length_cons]
        simp only [OpenTrade.marked]
        omega
      · exact (within_marked ht (adverse_close hb) (close_favorable hb)).later hl

end

/-! ### A filled trade -/

section
variable {K : Type} [Field K] [LinearOrder K] {t u : OpenTrade K} {bars : List (Kline K)}
  {d : Direction}

omit [Field K] in
theorem lt_of_findTouch {lim p : K} {i k : ℕ} (h : findTouch d lim i bars=some (k,p)) :
    i ≤ k ∧ k < i+bars.length := by
  induction bars generalizing i with
  | nil => cases h
  | cons b bars ih =>
    unfold findTouch at h
    rw [List.length_cons]
    split at h
    next =>
      cases h
      omega
    next =>
      have := ih h
      omega

omit [Field K] in
theorem lt_of_findFill {entry : EntryType} {limitPrice : Option K} {p : K} {k : ℕ}
    (h : findFill d entry limitPrice bars=some (k,p)) : k<bars.length := by
  unfold findFill at h
  split at h
  next => cases h
  next b bars =>
    split at h
    next =>
      cases h
      simp
    next => cases h
    next lim => simpa using (lt_of_findTouch h).2

theorem openTrade_eq_some {fill stop : K} {tp : Option K} (h : openTrade d fill stop tp=some t) :
    t=⟨d,fill,stop,tp,sgn d*(fill-stop),0,0,0⟩ ∧ 0<sgn d*(fill-stop) := by
  dsimp only [openTrade] at h
  split at h
  next => cases h
  next hpos =>
    cases h
    exact ⟨rfl,not_not.mp hpos⟩

end

section
variable {K : Type} [Field K] [LinearOrder K]

/-- The statistics of a filled trade, with the relations between them. -/
def Coherent (inp : OutcomeInput K) (o : Outcome K) : Prop :=
  ∃ fillPrice fillBar exitBar r maeR mfeR barsHeld,
    o.fillPrice=some fillPrice ∧ o.fillBar=some fillBar ∧ o.exitBar=some exitBar ∧ o.r=some r ∧
    o.maeR=some maeR ∧ o.mfeR=some mfeR ∧ o.barsHeld=some barsHeld ∧
    maeR ≤ min 0 r ∧ max 0 r ≤ mfeR ∧ (o.status=.stop → r ≤ -1) ∧
    (o.status=.tp → ∀ tp, inp.tp=some tp → 0<sgn inp.direction*(tp-fillPrice) → 0<r) ∧
    fillBar ≤ exitBar ∧ exitBar < inp.bars.length ∧ barsHeld=exitBar-fillBar+1

variable [IsStrictOrderedRing K] {inp : OutcomeInput K}

theorem tradeR_stop {d : Direction} {fill stop mae mfe px : K} {tp : Option K} {held : ℕ}
    (hd : 0<sgn d*(fill-stop)) (h : NoBetter d px stop) :
    tradeR ⟨d,fill,stop,tp,sgn d*(fill-stop),mae,mfe,held⟩ px ≤ -1 := by
  rw [tradeR,div_le_iff₀ hd]
  cases d <;> simp only [NoBetter,sgn] at h ⊢ <;> linarith

theorem tradeR_tp {d : Direction} {fill stop mae mfe px x : K} {tp : Option K} {held : ℕ}
    (hd : 0<sgn d*(fill-stop)) (h : NoBetter d x px) (hx : 0<sgn d*(x-fill)) :
    0<tradeR ⟨d,fill,stop,tp,sgn d*(fill-stop),mae,mfe,held⟩ px := by
  rw [tradeR]
  apply div_pos _ hd
  cases d <;> simp only [NoBetter,sgn] at h hx ⊢ <;> linarith

theorem outcome_eq_stop {s : ExitStatus} : s.outcome=.stop ↔ s=.stop := by
  cases s <;> decide

theorem outcome_eq_tp {s : ExitStatus} : s.outcome=.tp ↔ s=.tp := by
  cases s <;> decide

/-- Whatever is filled has statistics that belong together. -/
theorem coherent_of_filled (hbars : ∀ b ∈ inp.bars, b.WellFormed)
    (hunfilled : (simulateOutcome inp).status ≠ .unfilled)
    (hinvalid : (simulateOutcome inp).status ≠ .invalid) : Coherent inp (simulateOutcome inp) := by
  revert hunfilled hinvalid
  unfold simulateOutcome
  split
  next => intro _ h; exact absurd rfl h
  next last hlast =>
    split
    next => intro _ h; exact absurd rfl h
    next =>
      split
      next => intro h; exact absurd rfl h
      next bar price hfill =>
        have hbar := lt_of_findFill hfill
        split
        next => intro _ h; exact absurd rfl h
        next t ht =>
          obtain ⟨rfl,hpos⟩ := openTrade_eq_some ht
          have hrest : ∀ b ∈ inp.bars.drop bar, b.WellFormed :=
            fun b hb => hbars b (List.mem_of_mem_drop hb)
          split
          next u j e hwalk =>
            intro _ _
            obtain ⟨hl,hij,hj,hheld,hwithin,hstop,htp⟩ := walkTrade_exit hrest hpos hwalk
            rw [Within,hl.tradeR] at hwithin
            have hmae := hl.maeR
            have hmfe := hl.mfeR
            refine ⟨_,_,_,_,_,_,_,rfl,rfl,rfl,rfl,rfl,rfl,rfl,?_,?_,?_,?_,hij,?_,?_⟩
            · rw [hl.tradeR]
              exact le_min hmae hwithin.1
            · rw [hl.tradeR]
              exact max_le hmfe hwithin.2
            · intro hs
              rw [hl.tradeR]
              exact tradeR_stop hpos (hstop (outcome_eq_stop.mp hs))
            · intro hs x hx hside
              obtain ⟨y,hy,hbetter⟩ := htp (outcome_eq_tp.mp hs)
              cases hx.symm.trans hy
              rw [hl.tradeR]
              exact tradeR_tp hpos hbetter hside
            · rw [List.length_drop] at hj
              omega
            · rw [hheld]
              show 0+(j-bar)+1=j-bar+1
              omega
          next u hwalk =>
            intro _ _
            obtain ⟨hl,hheld,hclose⟩ := walkTrade_none hrest hpos hwalk
            have hmem : last ∈ inp.bars.drop bar := by
              rw [List.mem_iff_getElem?]
              refine ⟨inp.bars.length-1-bar,?_⟩
              rw [List.getElem?_drop,← hlast,List.getLast?_eq_getElem?]
              congr 1
              omega
            have hwithin := hclose last hmem
            rw [Within,hl.tradeR] at hwithin
            have hmae := hl.maeR
            have hmfe := hl.mfeR
            refine ⟨_,_,_,_,_,_,_,rfl,rfl,rfl,rfl,rfl,rfl,rfl,?_,?_,?_,?_,?_,?_,?_⟩
            · rw [hl.tradeR]
              exact le_min hmae hwithin.1
            · rw [hl.tradeR]
              exact max_le hmfe hwithin.2
            · intro h
              cases h
            · intro h
              cases h
            · omega
            · omega
            · rw [hheld,List.length_drop]
              show 0+(inp.bars.length-bar)=inp.bars.length-1-bar+1
              omega

end
end TradeGate.Outcomes
