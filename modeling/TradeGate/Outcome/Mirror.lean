import TradeGate.Outcome.EarlyTarget

/-! The simulator and price paths: when what is reported is pessimistic, for long and short orders.  A
short order is the long order on the reflected prices. -/
namespace TradeGate.Outcomes
open Set Touch

section
variable {C D : Set ℝ} {p : ℝ → ℝ} {ps rest : List (ℝ → ℝ)} {s τ x f : ℝ}

/-- The path on the reflected prices. -/
def negated (p : ℝ → ℝ) (u : ℝ) : ℝ := -p u

theorem FirstAt.negated (hCD : ∀ x, -x ∈ D ↔ x ∈ C) (h : FirstAt p C s τ) :
    FirstAt (negated p) D s τ := by
  obtain ⟨⟨hs,hτ,hmem⟩,hleast⟩ := h
  exact ⟨⟨hs,hτ,(hCD _).mpr hmem⟩,fun u hu => hleast ⟨hu.1,hu.2.1,(hCD _).mp hu.2.2⟩⟩

theorem Exits.negated (hCD : ∀ x, -x ∈ D ↔ x ∈ C) (h : Exits C s ps x) :
    Exits D s (ps.map Outcomes.negated) (-x) := by
  induction h with
  | touched touch => exact .touched (FirstAt.negated hCD touch)
  | passed untouched _ ih =>
    exact .passed (fun u hu hu' hmem => untouched u hu hu' ((hCD _).mp hmem)) ih
  | horizon untouched =>
    exact .horizon (p := Outcomes.negated _) fun u hu hu' hmem => untouched u hu hu' ((hCD _).mp hmem)

theorem Fills.negated (hCD : ∀ x, -x ∈ D ↔ x ∈ C) (h : Fills C ps f s rest) :
    Fills D (ps.map Outcomes.negated) (-f) s (rest.map Outcomes.negated) := by
  induction h with
  | here touch => exact .here (FirstAt.negated hCD touch)
  | later untouched _ ih =>
    exact .later (fun u hu hu' hmem => untouched u hu hu' ((hCD _).mp hmem)) ih

theorem neg_mem_fillSet (d : Direction) (lim : ℝ) :
    -x ∈ fillSet d.opposite (-lim) ↔ x ∈ fillSet d lim := by
  cases d
  · exact neg_le_neg_iff (α := ℝ)
  · exact neg_le_neg_iff (α := ℝ)

theorem neg_mem_exitSet (d : Direction) (stop : ℝ) (tp : Option ℝ) :
    -x ∈ exitSet d.opposite (-stop) (tp.map fun y => -y) ↔ x ∈ exitSet d stop tp := by
  have htp : ∀ y : ℝ, NoBetter d.opposite (-y) (-x) ↔ NoBetter d y x := by
    intro y
    cases d
    · exact neg_le_neg_iff
    · exact neg_le_neg_iff
  have hstop : NoBetter d.opposite (-x) (-stop) ↔ NoBetter d x stop := neg_mem_fillSet d stop
  simp only [exitSet,mem_ofPred_eq,hstop]
  cases tp <;> simp [htp]

end

section
variable {inp : OutcomeInput ℚ} {b : Kline ℚ} {p : ℝ → ℝ} {ps : List (ℝ → ℝ)} {R : ℝ}

theorem Follows.negated (h : Follows b p) : Follows (b.reflect 0) (negated p) where
  continuous := h.continuous.neg
  opens := by simp [Outcomes.negated,Kline.reflect,h.opens]
  closes := by simp [Outcomes.negated,Kline.reflect,h.closes]
  above := by
    intro u hu hu'
    simpa [Outcomes.negated,Kline.reflect] using h.below u hu hu'
  below := by
    intro u hu hu'
    simpa [Outcomes.negated,Kline.reflect] using h.above u hu hu'
  low := by
    obtain ⟨u,hu,hu',hpu⟩ := h.high
    exact ⟨u,hu,hu',by simp [Outcomes.negated,Kline.reflect,hpu]⟩
  high := by
    obtain ⟨u,hu,hu',hpu⟩ := h.low
    exact ⟨u,hu,hu',by simp [Outcomes.negated,Kline.reflect,hpu]⟩

theorem reflect_zero_reflect_zero (inp : OutcomeInput ℚ) : (inp.reflect 0).reflect 0=inp := by
  have hbar : Kline.reflect (0 : ℚ) ∘ Kline.reflect 0=id := by
    funext b
    simp [Kline.reflect]
  obtain ⟨d,entry,limitPrice,stop,tp,bars⟩ := inp
  simp [OutcomeInput.reflect,hbar]

theorem realR_reflect (f x : ℝ) : (inp.reflect 0).realR (-f) (-x)=inp.realR f x := by
  simp only [OutcomeInput.realR,OutcomeInput.reflect,sgn_opposite]
  push_cast
  congr 1 <;> ring

/-- An order comes to the same along the reflected paths. -/
theorem Executes.negated (h : Executes inp ps R) :
    Executes (inp.reflect 0) (ps.map Outcomes.negated) R := by
  have hexit : ∀ x, -x ∈ (inp.reflect 0).exitSet ↔ x ∈ inp.exitSet := by
    intro x
    have h := neg_mem_exitSet (x := x) inp.direction inp.stop (inp.tp.map fun x : ℚ => (x : ℝ))
    refine Iff.trans ?_ h
    simp [OutcomeInput.exitSet,OutcomeInput.reflect,Function.comp_def]
  cases h with
  | market entry exits =>
    rename_i p ps x
    rw [← realR_reflect]
    exact .market entry (exits.negated hexit)
  | limit entry limit fills exits =>
    rename_i lim f s rest x
    rw [← realR_reflect]
    have hlimit : (inp.reflect 0).limitPrice=some (0-lim) := by simp [OutcomeInput.reflect,limit]
    refine .limit entry hlimit ?_ (exits.negated hexit)
    refine fills.negated fun x => ?_
    have hlim : ((0-lim : ℚ) : ℝ)=-lim := by simp
    rw [hlim]
    exact neg_mem_fillSet inp.direction (lim : ℝ)

theorem Pessimistic.of_reflect (h : Pessimistic (inp.reflect 0)) : Pessimistic inp := by
  intro ps hps R hR r hr
  refine h (ps.map Outcomes.negated) ?_ R hR.negated r ?_
  · rw [show (inp.reflect 0).bars=inp.bars.map (Kline.reflect 0) from rfl,List.forall₂_map_left_iff,
      List.forall₂_map_right_iff]
    exact hps.imp fun b p hp => hp.negated
  · rw [simulateOutcome_reflect]
    exact hr

theorem pessimistic_reflect : Pessimistic (inp.reflect 0) ↔ Pessimistic inp := by
  constructor
  · exact Pessimistic.of_reflect
  · intro h
    apply Pessimistic.of_reflect
    rwa [reflect_zero_reflect_zero]

theorem noBetter_reflect {d : Direction} {x y : ℚ} :
    NoBetter d.opposite (0-x) (0-y) ↔ NoBetter d x y := by
  cases d
  · exact sub_le_sub_iff_left 0
  · exact sub_le_sub_iff_left 0

theorem targetFirst_reflect {d : Direction} {stop tp : ℚ} {bars : List (Kline ℚ)} :
    TargetFirst d.opposite (0-stop) (0-tp) (bars.map (Kline.reflect 0)) ↔
      TargetFirst d stop tp bars := by
  induction bars with
  | nil => exact Iff.rfl
  | cons b bars ih =>
    simp only [List.map_cons,TargetFirst,ih,hitStop_reflect,hitTp_reflect,
      show (b.reflect 0).openPrice=0-b.openPrice from rfl,noBetter_reflect]

theorem reliable_reflect {d : Direction} {lim stop tp : ℚ} {rest : List (Kline ℚ)} :
    Reliable d.opposite (0-lim) (0-stop) (0-tp) (b.reflect 0) (rest.map (Kline.reflect 0)) ↔
      Reliable d lim stop tp b rest := by
  simp only [Reliable,hitStop_reflect,hitTp_reflect,targetFirst_reflect,
    show (b.reflect 0).openPrice=0-b.openPrice from rfl,
    show (b.reflect 0).close=0-b.close from rfl,noBetter_reflect]

theorem TargetAfterFill.reflect (h : TargetAfterFill inp) : TargetAfterFill (inp.reflect 0) := by
  intro lim tp b rest hentry hlimit htp hwhile
  obtain ⟨lim,hlim,rfl⟩ := Option.map_eq_some_iff.mp hlimit
  obtain ⟨tp,hinp,rfl⟩ := Option.map_eq_some_iff.mp htp
  have hbars : (inp.reflect 0).bars.dropWhile
        (fun b => !hitStop (inp.reflect 0).direction (0-lim) b)=
      (inp.bars.dropWhile fun b => !hitStop inp.direction lim b).map (Kline.reflect 0) := by
    rw [show (inp.reflect 0).bars=inp.bars.map (Kline.reflect 0) from rfl,List.dropWhile_map]
    congr 2
    funext c
    exact congrArg (!·) (hitStop_reflect 0 inp.direction c lim)
  rw [hbars] at hwhile
  obtain ⟨c,tail,hc,rfl,rfl⟩ := List.map_eq_cons_iff.mp hwhile
  exact reliable_reflect.mpr (h lim tp c tail hentry hlim hinp hc)

theorem targetAfterFill_reflect : TargetAfterFill (inp.reflect 0) ↔ TargetAfterFill inp := by
  constructor
  · intro h
    have := h.reflect
    rwa [reflect_zero_reflect_zero] at this
  · exact TargetAfterFill.reflect

theorem wellFormed_reflect (hb : b.WellFormed) : (b.reflect 0).WellFormed where
  low_open := sub_le_sub_left hb.open_high 0
  low_close := sub_le_sub_left hb.close_high 0
  open_high := sub_le_sub_left hb.low_open 0
  close_high := sub_le_sub_left hb.low_close 0

/-- Along the paths of its bars an order that fills comes to one R. -/
theorem existsUnique_executes (hps : List.Forall₂ Follows inp.bars ps) {r : ℚ}
    (hr : (simulateOutcome inp).r=some r) : ∃! R, Executes inp ps R := by
  obtain ⟨last,bar,price,t,hlast,hfill,-,-⟩ := simulateOutcome_r_eq_some.mp hr
  have hcont := continuousOn_of_follows hps
  have hC : IsClosed inp.exitSet := isClosed_exitSet _ _ _
  cases hentry : inp.entry with
  | market =>
    cases hbars : inp.bars with
    | nil =>
      rw [hbars] at hlast
      cases hlast
    | cons b bars =>
      rw [hbars] at hps
      obtain ⟨p,ps,-,-,rfl⟩ := List.forall₂_cons_left_iff.mp hps
      obtain ⟨x,hx⟩ := exists_exits hC hcont le_rfl (by simp)
      refine ⟨_,.market hentry hx,?_⟩
      intro R hR
      cases hR with
      | market _ exits => rw [exits.unique hx]
      | limit entry => cases hentry.symm.trans entry
  | limit =>
    rw [hentry] at hfill
    unfold findFill at hfill
    split at hfill
    next => cases hfill
    next b bars hbars =>
      split at hfill
      next heq => cases heq
      next => cases hfill
      next lim _ hlim =>
        obtain ⟨c,tail,hdrop,-,hhit,-,-⟩ := findTouch_eq_some hfill
        have hmem : c ∈ inp.bars := by
          apply List.mem_of_mem_drop
          rw [hdrop]
          exact List.mem_cons_self
        obtain ⟨f,s,rest,hf,hs,hne,hrest⟩ := exists_fills_of_hit hps ⟨c,hmem,hhit⟩
        obtain ⟨x,hx⟩ := exists_exits hC (fun p hp => hcont p (hrest p hp)) hs hne
        refine ⟨_,.limit hentry hlim hf hx,?_⟩
        intro R hR
        cases hR with
        | market entry => cases hentry.symm.trans entry
        | limit _ limit fills exits =>
          cases hlim.symm.trans limit
          obtain ⟨rfl,rfl,rfl⟩ := hf.unique fills
          rw [exits.unique hx]

/-- Whatever the path, the order comes to at least the R that is reported, exactly when a limit that
fills in the middle of a bar can rely on the exit of that bar. -/
theorem pessimistic_iff (inp : OutcomeInput ℚ) (hbars : ∀ b ∈ inp.bars, b.WellFormed) :
    Pessimistic inp ↔ TargetAfterFill inp := by
  cases hd : inp.direction with
  | long =>
    constructor
    · exact targetAfterFill_long hd hbars
    · exact pessimistic_long hd
  | short =>
    have hd' : (inp.reflect 0).direction=.long := by
      rw [OutcomeInput.reflect,hd]
      rfl
    have hbars' : ∀ b ∈ (inp.reflect 0).bars, b.WellFormed := by
      intro b hb
      obtain ⟨c,hc,rfl⟩ := List.mem_map.mp hb
      exact wellFormed_reflect (hbars c hc)
    rw [← pessimistic_reflect,← targetAfterFill_reflect]
    constructor
    · exact targetAfterFill_long hd' hbars'
    · exact pessimistic_long hd'

/-- The price may go to the target before it comes down to the limit. -/
def highBeforeFill : OutcomeInput ℚ := ⟨.long,.limit,some 100,95,some 110,[⟨105,112,98,99⟩]⟩

theorem not_pessimistic_highBeforeFill :
    (∀ b ∈ highBeforeFill.bars, b.WellFormed) ∧ ¬Pessimistic highBeforeFill := by
  have hbars : ∀ b ∈ highBeforeFill.bars, b.WellFormed := by
    intro b hb
    fin_cases hb
    constructor <;> norm_num
  refine ⟨hbars,fun h => ?_⟩
  have hrel := targetAfterFill_long rfl hbars h 100 110 ⟨105,112,98,99⟩ [] rfl rfl rfl (by decide +kernel)
  simp only [Reliable,NoBetter,hitStop,hitTp,TargetFirst,highBeforeFill,decide_eq_true_eq] at hrel
  norm_num at hrel

theorem pessimistic_iff_stoppedOut : Pessimistic stoppedOut ↔ TargetAfterFill stoppedOut := by
  apply pessimistic_iff stoppedOut
  intro b hb
  fin_cases hb <;> constructor <;> norm_num

end
end TradeGate.Outcomes
