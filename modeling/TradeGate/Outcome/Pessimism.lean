import TradeGate.Outcome.Paths

/-! A long limit that fills: where the code and a path find the fill, and what may follow in a bar that
opened above the limit. -/
namespace TradeGate.Outcomes
open Set Touch

section
variable {t : OpenTrade ℚ} {b : Kline ℚ} {bars : List (Kline ℚ)} {p : ℝ → ℝ} {ps : List (ℝ → ℝ)}
  {s x : ℝ} {lim tp : ℚ} {last : Kline ℚ}

/-- A target that is reached first is reached on every path. -/
theorem TargetFirst.le (ht : t.direction=.long) (htp : t.tp=some tp)
    (h : TargetFirst .long t.stop tp bars) (hbars : List.Forall₂ Follows bars ps)
    (hx : Exits t.exitSet 0 ps x) : (tp : ℝ) ≤ x := by
  induction hbars with
  | nil => exact h.elim
  | cons hp hrest ih =>
    rename_i b p bars ps
    have hmem : ∀ u, (tp : ℝ) ≤ p u → p u ∈ t.exitSet := fun u hu =>
      (mem_exitSet_long ht).mpr (.inr ⟨tp,htp,hu⟩)
    obtain hopen | ⟨hstop,hnext⟩ := h
    · have hstart : (tp : ℝ) ≤ p 0 := by
        rw [hp.opens]
        exact_mod_cast hopen
      cases hx with
      | touched touch => rwa [touch.unique (.of_start zero_le_one (hmem 0 hstart))]
      | passed untouched => exact absurd (hmem 0 hstart) (untouched 0 le_rfl zero_le_one)
      | horizon untouched => exact absurd (hmem 0 hstart) (untouched 0 le_rfl zero_le_one)
    · have hstop : t.stop<b.low := by simpa [hitStop] using hstop
      have hhigh : hitTp .long tp b → ∃ u, 0 ≤ u ∧ u ≤ 1 ∧ p u ∈ t.exitSet := by
        intro hhit
        obtain ⟨u,hu,hu',hpu⟩ := hp.high
        refine ⟨u,hu,hu',hmem u ?_⟩
        rw [hpu]
        exact_mod_cast of_decide_eq_true hhit
      cases hx with
      | touched touch =>
        obtain ⟨⟨hτ,hτ',htouch⟩,-⟩ := touch
        obtain hlow | ⟨y,hy,hle⟩ := (mem_exitSet_long ht).mp htouch
        · have hlow : b.low ≤ t.stop := by exact_mod_cast (hp.above _ hτ hτ').trans hlow
          exact absurd hstop (not_lt.mpr hlow)
        · cases htp.symm.trans hy
          exact hle
      | passed untouched exits =>
        obtain hhit | hnext := hnext
        · obtain ⟨u,hu,hu',hmem⟩ := hhigh hhit
          exact absurd hmem (untouched u hu hu')
        · exact ih hnext exits
      | horizon untouched =>
        obtain hhit | hnext := hnext
        · obtain ⟨u,hu,hu',hmem⟩ := hhigh hhit
          exact absurd hmem (untouched u hu hu')
        · cases hrest
          exact hnext.elim

/-- When the exit of the bar in which a limit fills can be relied on: the bar opens at the limit or
beyond it, or touches the stop, or not the target, or the target is above the open and still ahead of
whatever path fills the limit. -/
def Reliable {K : Type} [LinearOrder K] (d : Direction) (lim stop tp : K) (b : Kline K)
    (rest : List (Kline K)) : Prop :=
  NoBetter d b.openPrice lim ∨ hitStop d stop b ∨ ¬hitTp d tp b ∨
    NoBetter d b.openPrice tp ∧ (NoBetter d tp b.close ∨ TargetFirst d stop tp rest)

/-- From a fill above the stop on, a bar that touches the stop is left at the stop or better. -/
theorem stop_le_of_fill (ht : t.direction=.long) (hp : Follows b p)
    (hfill : FirstAt p (fillSet .long lim) 0 s) (hs : p s=lim) (hstop : t.stop<lim)
    (hlow : b.low ≤ t.stop) (hx : Exits t.exitSet s (p::ps) x) : (t.stop : ℝ) ≤ x := by
  have hstopR : (t.stop : ℝ)<lim := by exact_mod_cast hstop
  have hmem : (t.stop : ℝ) ∈ t.exitSet := (mem_exitSet_long ht).mpr (.inl le_rfl)
  obtain ⟨u,hu,hu',hpu⟩ := hp.low
  have hlowR : p u ≤ t.stop := by
    rw [hpu]
    exact_mod_cast hlow
  -- the path comes to the limit before it comes to the low
  have hsu : s ≤ u := hfill.2 ⟨hu,hu',show p u ≤ lim from hlowR.trans hstopR.le⟩
  have htouch : p u ∈ t.exitSet := (mem_exitSet_long ht).mpr (.inl hlowR)
  cases hx with
  | touched touch => exact touch.le hp.continuous hfill.1.1 hmem (by rw [hs]; exact hstopR.le)
  | passed untouched => exact absurd htouch (untouched u hsu hu')
  | horizon untouched => exact absurd htouch (untouched u hsu hu')

/-- From a fill on, a target that is still ahead of every path is what the path comes to at least. -/
theorem target_le_of_fill (ht : t.direction=.long) (htp : t.tp=some tp) (hp : Follows b p)
    (hrest : List.Forall₂ Follows bars ps) (hs : 0 ≤ s) (hs' : s ≤ 1) (hlow : t.stop<b.low)
    (hahead : tp ≤ b.close ∨ TargetFirst .long t.stop tp bars)
    (hx : Exits t.exitSet s (p::ps) x) : (tp : ℝ) ≤ x := by
  have hclose : tp ≤ b.close → p 1 ∈ t.exitSet := by
    intro h
    rw [mem_exitSet_long ht,hp.closes]
    exact .inr ⟨tp,htp,by exact_mod_cast h⟩
  cases hx with
  | touched touch =>
    obtain ⟨⟨hτ,hτ',hmem⟩,-⟩ := touch
    obtain hstop | ⟨y,hy,hle⟩ := (mem_exitSet_long ht).mp hmem
    · have h : b.low ≤ t.stop := by exact_mod_cast (hp.above _ (hs.trans hτ) hτ').trans hstop
      exact absurd hlow (not_lt.mpr h)
    · cases htp.symm.trans hy
      exact hle
  | passed untouched exits =>
    obtain h | h := hahead
    · exact absurd (hclose h) (untouched 1 hs' le_rfl)
    · exact h.le ht htp hrest exits
  | horizon untouched =>
    obtain h | h := hahead
    · exact absurd (hclose h) (untouched 1 hs' le_rfl)
    · cases hrest
      exact h.elim

/-- From a fill in the middle of a bar on, no path does worse than the walk. -/
theorem leaves_le_of_fill (ht : t.direction=.long) (hp : Follows b p)
    (hrest : List.Forall₂ Follows bars ps) (hfill : FirstAt p (fillSet .long lim) 0 s)
    (hs : p s=lim) (hstop : t.stop<lim) (hopen : lim<b.openPrice)
    (hrel : ∀ tp, t.tp=some tp → Reliable .long lim t.stop tp b bars)
    (hx : Exits t.exitSet s (p::ps) x) (hlast : (b::bars).getLast?=some last) :
    (t.leaves (b::bars) last.close : ℝ) ≤ x := by
  obtain ⟨hs0,hs1,-⟩ := hfill.1
  cases he : t.exit b with
  | some e =>
    rw [leaves_of_exit he]
    rw [exit_long ht] at he
    split at he
    next hlow =>
      cases he
      dsimp only
      rw [if_neg (not_lt.mpr (hstop.trans hopen).le)]
      exact stop_le_of_fill ht hp hfill hs hstop hlow hx
    next hlow =>
      obtain ⟨tp,htp,he⟩ := Option.bind_eq_some_iff.mp he
      split at he
      next hhigh =>
        cases he
        dsimp only
        obtain h | h | h | ⟨h,hahead⟩ := hrel tp htp
        · exact absurd hopen (not_lt.mpr h)
        · exact absurd (of_decide_eq_true h) hlow
        · exact absurd (decide_eq_true hhigh) h
        · rw [if_neg (not_lt.mpr h)]
          exact target_le_of_fill ht htp hp hrest hs0 hs1 (not_le.mp hlow) hahead hx
      next => cases he
  | none =>
    rw [leaves_of_none he]
    cases hx with
    | touched touch =>
      exact absurd touch.1.2.2 (notMem_of_exit_none ht hp he (hs0.trans touch.1.1) touch.1.2.1)
    | passed untouched exits =>
      cases hrest with
      | cons hq hrest =>
        refine leaves_le (t := t.marked b) ht (.cons hq hrest) exits ?_
        simpa using hlast
    | horizon untouched =>
      cases hrest
      cases hlast
      rw [leaves_nil,hp.closes]
      exact le_rfl

/-! ### Where the fill is found -/

/-- The first bar that touches a limit, as the code finds it. -/
theorem findTouch_eq_some {d : Direction} {i k : ℕ} {price : ℚ}
    (h : findTouch d lim i bars=some (k,price)) : ∃ b rest,
      bars.drop (k-i)=b::rest ∧ bars.dropWhile (fun b => !hitStop d lim b)=b::rest ∧
      hitStop d lim b ∧ i ≤ k ∧ price=limitFill d lim b := by
  induction bars generalizing i with
  | nil => cases h
  | cons b bars ih =>
    unfold findTouch at h
    split at h
    next hhit =>
      cases h
      refine ⟨b,bars,by simp,?_,hhit,le_rfl,rfl⟩
      rw [List.dropWhile_cons_of_neg (by simp [hhit])]
    next hhit =>
      obtain ⟨c,rest,hdrop,hwhile,hc,hik,hprice⟩ := ih h
      refine ⟨c,rest,?_,?_,hc,by omega,hprice⟩
      · rw [show k-i=k-(i+1)+1 by omega,List.drop_succ_cons]
        exact hdrop
      · rw [List.dropWhile_cons_of_pos (by simpa using hhit)]
        exact hwhile

/-- A path touches a limit in the first bar that does. -/
theorem Fills.find {d : Direction} {f : ℝ} {rest : List (ℝ → ℝ)} (h : Fills (fillSet d lim) ps f s rest)
    (hbars : List.Forall₂ Follows bars ps) : ∃ b tail p qs,
      bars.dropWhile (fun b => !hitStop d lim b)=b::tail ∧ rest=p::qs ∧ Follows b p ∧
      List.Forall₂ Follows tail qs ∧ FirstAt p (fillSet d lim) 0 s ∧ f=p s := by
  induction h generalizing bars with
  | here touch =>
    cases hbars with
    | cons hp hrest =>
      rename_i p qs τ b tail
      have hhit : hitStop d lim b := by
        have hmem := touch.1.2.2
        cases d with
        | long =>
          apply decide_eq_true
          exact_mod_cast (hp.above _ touch.1.1 touch.1.2.1).trans hmem
        | short =>
          apply decide_eq_true
          exact_mod_cast le_trans hmem (hp.below _ touch.1.1 touch.1.2.1)
      refine ⟨b,tail,p,qs,?_,rfl,hp,hrest,touch,rfl⟩
      rw [List.dropWhile_cons_of_neg (by simp [hhit])]
  | later untouched _ ih =>
    cases hbars with
    | cons hp hrest =>
      rename_i p qs f s rest fills b tail
      have hhit : ¬hitStop d lim b := by
        intro hhit
        obtain ⟨u,hu,hu',hmem⟩ := hp.exists_mem_fillSet hhit
        exact untouched u hu hu' hmem
      obtain ⟨c,tail,q,qs,hwhile,rfl,hq,hqs,hfirst,hf⟩ := ih hrest
      refine ⟨c,tail,q,qs,?_,rfl,hq,hqs,hfirst,hf⟩
      rw [List.dropWhile_cons_of_pos (by simpa using hhit)]
      exact hwhile

end
end TradeGate.Outcomes

/-! When the simulator is pessimistic: exactly when no target is credited to a limit that filled in the
middle of a bar while a path could have reached it before the fill only. -/
namespace TradeGate.Outcomes
open Set Touch

section
variable {inp : OutcomeInput ℚ} {t : OpenTrade ℚ} {r : ℚ}

/-- The R that is reported. -/
theorem simulateOutcome_r_eq_some : (simulateOutcome inp).r=some r ↔ ∃ last bar price t,
    inp.bars.getLast?=some last ∧
    findFill inp.direction inp.entry inp.limitPrice inp.bars=some (bar,price) ∧
    openTrade inp.direction price inp.stop inp.tp=some t ∧
    tradeR t (t.leaves (inp.bars.drop bar) last.close)=r := by
  unfold simulateOutcome
  cases hlast : inp.bars.getLast? with
  | none => simp [Outcome.without]
  | some last =>
    dsimp only
    by_cases hlim : inp.entry=.limit ∧ inp.limitPrice=none
    · rw [if_pos hlim]
      have hfill : findFill inp.direction inp.entry inp.limitPrice inp.bars=none := by
        unfold findFill
        rw [hlim.1,hlim.2]
        cases inp.bars <;> rfl
      simp [Outcome.without,hfill]
    · rw [if_neg hlim]
      cases hfill : findFill inp.direction inp.entry inp.limitPrice inp.bars with
      | none => simp [Outcome.without]
      | some p =>
        obtain ⟨bar,price⟩ := p
        dsimp only
        cases hopen : openTrade inp.direction price inp.stop inp.tp with
        | none => simp [Outcome.without,hopen]
        | some t =>
          dsimp only
          have hleaves := leaves_index t bar (inp.bars.drop bar) last.close
          have hlater := later_walkTrade t bar (inp.bars.drop bar)
          have hr : tradeR t (t.leaves (inp.bars.drop bar) last.close)=r ↔ ∃ last' bar' price' t',
              some last=some last' ∧ some (bar,price)=some (bar',price') ∧
              openTrade inp.direction price' inp.stop inp.tp=some t' ∧
              tradeR t' (t'.leaves (inp.bars.drop bar') last'.close)=r := by
            constructor
            · intro h
              exact ⟨last,bar,price,t,rfl,rfl,hopen,h⟩
            · rintro ⟨_,_,_,t',h₁,h₂,h₃,h⟩
              cases h₁
              cases h₂
              cases hopen.symm.trans h₃
              exact h
          rw [← hr,← hleaves]
          clear hr hleaves
          generalize walkTrade t bar (inp.bars.drop bar)=w at hlater ⊢
          obtain ⟨u,x⟩ := w
          cases x with
          | none => simp only [Option.some_inj,hlater.tradeR,Option.map_none,Option.getD_none]
          | some x => simp only [Option.some_inj,hlater.tradeR,Option.map_some,Option.getD_some]

theorem cast_sgn (d : Direction) : ((sgn d : ℚ) : ℝ)=sgn d := by
  cases d <;> simp [sgn]

/-- The R of an opened trade, over the reals. -/
theorem cast_tradeR {price q : ℚ} (h : openTrade inp.direction price inp.stop inp.tp=some t) :
    ((tradeR t q : ℚ) : ℝ)=inp.realR price q := by
  obtain ⟨rfl,-⟩ := openTrade_eq_some h
  simp only [tradeR,OutcomeInput.realR]
  push_cast
  rw [cast_sgn]

theorem exitSet_of_openTrade {price : ℚ}
    (h : openTrade inp.direction price inp.stop inp.tp=some t) : t.exitSet=inp.exitSet := by
  obtain ⟨rfl,-⟩ := openTrade_eq_some h
  rfl

theorem realR_le_realR {f x y : ℝ} (hd : inp.direction=.long) (hf : inp.stop<f) :
    inp.realR f x ≤ inp.realR f y ↔ x ≤ y := by
  have hpos : 0<f-inp.stop := sub_pos.mpr hf
  simp only [OutcomeInput.realR,hd,sgn,one_mul]
  rw [div_le_div_iff_of_pos_right hpos]
  constructor <;> intro h <;> linarith

/-- The condition on the input: where a limit fills in the middle of a bar, the exit of that bar can
be relied on. -/
def TargetAfterFill {K : Type} [LinearOrder K] (inp : OutcomeInput K) : Prop :=
  ∀ lim tp b rest, inp.entry=.limit → inp.limitPrice=some lim → inp.tp=some tp →
    inp.bars.dropWhile (fun b => !hitStop inp.direction lim b)=b::rest →
      Reliable inp.direction lim inp.stop tp b rest

theorem getLast?_of_drop {bars rest : List (Kline ℚ)} {b : Kline ℚ} {k : ℕ}
    (h : bars.drop k=b::rest) : (b::rest).getLast?=bars.getLast? := by
  rw [← h,List.getLast?_drop,if_neg]
  intro hlen
  rw [List.drop_eq_nil_of_le hlen] at h
  cases h

/-- A long order comes to at least what is reported when the condition holds. -/
theorem pessimistic_long (hd : inp.direction=.long) (h : TargetAfterFill inp) : Pessimistic inp := by
  intro ps hps R hR r hr
  obtain ⟨last,bar,price,t,hlast,hfill,hopen,rfl⟩ := simulateOutcome_r_eq_some.mp hr
  rw [cast_tradeR hopen]
  have hC := exitSet_of_openTrade hopen
  obtain ⟨ht,hpos⟩ := openTrade_eq_some hopen
  have hdir : t.direction=.long := by rw [ht]; exact hd
  have hstop : inp.stop<price := by
    rw [hd] at hpos
    simpa [sgn] using hpos
  have hstopR : (inp.stop : ℝ)<price := by exact_mod_cast hstop
  cases hR with
  | market entry exits =>
    cases hbars : inp.bars with
    | nil => rw [hbars] at hlast; cases hlast
    | cons b bars =>
      rw [hbars] at hps hlast
      rw [entry,hbars] at hfill
      cases hfill
      cases hps with
      | cons hp hrest =>
        rw [hp.opens,realR_le_realR hd hstopR]
        exact leaves_le hdir (.cons hp hrest) (hC ▸ exits) hlast
  | limit entry limit fills exits =>
    rename_i lim f s rest x
    rw [entry,limit] at hfill
    have htouch : findTouch inp.direction lim 0 inp.bars=some (bar,price) := by
      unfold findFill at hfill
      split at hfill
      next => cases hfill
      next => exact hfill
    obtain ⟨b,tail,hdrop,hwhile,hhit,-,hprice⟩ := findTouch_eq_some htouch
    obtain ⟨c,tail',p,qs,hwhile',rfl,hp,hqs,hfirst,rfl⟩ := fills.find hps
    cases hwhile.symm.trans hwhile'
    have hlast' : (b::tail).getLast?=some last := by
      rw [getLast?_of_drop hdrop,hlast]
    rw [Nat.sub_zero] at hdrop
    rw [hdrop]
    rw [hd] at hprice hfirst
    have hlim : p s ≤ lim := hfirst.1.2.2
    by_cases hmid : b.openPrice ≤ lim
    · have hstart : p 0 ∈ fillSet .long (lim : ℝ) := by
        show p 0 ≤ lim
        rw [hp.opens]
        exact_mod_cast hmid
      cases hfirst.unique (.of_start zero_le_one hstart)
      rw [limitFill,min_eq_left hmid] at hprice
      subst hprice
      rw [hp.opens,realR_le_realR hd hstopR]
      exact leaves_le hdir (.cons hp hqs) (hC ▸ exits) hlast'
    · push Not at hmid
      have hge : (lim : ℝ) ≤ p s := by
        refine hfirst.le hp.continuous le_rfl (show (lim : ℝ) ≤ lim from le_rfl) ?_
        rw [hp.opens]
        exact_mod_cast hmid.le
      have hps' : p s=lim := le_antisymm hlim hge
      rw [limitFill,min_eq_right hmid.le] at hprice
      subst hprice
      rw [hps',realR_le_realR hd hstopR]
      refine leaves_le_of_fill hdir hp hqs hfirst hps' ?_ hmid ?_ (hC ▸ exits) hlast'
      · rw [ht]
        exact hstop
      · intro tp htp
        rw [ht] at htp ⊢
        have hrel := h price tp b tail entry limit htp hwhile
        rwa [hd] at hrel

end
end TradeGate.Outcomes
