import TradeGate.Outcome.Pessimism

/-! Where the condition fails there is a path that does worse than what is reported: the price makes its
high before it comes down to the limit, or reaches a target after the fill that lies below the open. -/
namespace TradeGate.Outcomes
open Set Touch

section
variable {inp : OutcomeInput ℚ} {t : OpenTrade ℚ} {b : Kline ℚ} {bars rest : List (Kline ℚ)}
  {p : ℝ → ℝ} {qs : List (ℝ → ℝ)} {s : ℝ} {lim tp : ℚ}

/-- The path that makes the low of the bar first. -/
noncomputable def lowFirst (b : Kline ℚ) : ℝ → ℝ := polygon b.openPrice b.low b.high b.close

/-- The path that makes the high of the bar first. -/
noncomputable def highFirst (b : Kline ℚ) : ℝ → ℝ := polygon b.openPrice b.high b.low b.close

theorem low_le_high (hb : b.WellFormed) : (b.low : ℝ) ≤ b.high := by
  exact_mod_cast hb.low_open.trans hb.open_high

theorem follows_lowFirst (hb : b.WellFormed) : Follows b (lowFirst b) where
  continuous := (continuous_polygon _ _ _ _).continuousOn
  opens := polygon_zero
  closes := polygon_one
  above := by
    intro u hu hu'
    exact le_polygon hu hu' (by exact_mod_cast hb.low_open) le_rfl (low_le_high hb)
      (by exact_mod_cast hb.low_close)
  below := by
    intro u hu hu'
    exact polygon_le hu hu' (by exact_mod_cast hb.open_high) (low_le_high hb) le_rfl
      (by exact_mod_cast hb.close_high)
  low := ⟨1/3,by norm_num,by norm_num,polygon_third⟩
  high := ⟨2/3,by norm_num,by norm_num,polygon_two_thirds⟩

theorem follows_highFirst (hb : b.WellFormed) : Follows b (highFirst b) where
  continuous := (continuous_polygon _ _ _ _).continuousOn
  opens := polygon_zero
  closes := polygon_one
  above := by
    intro u hu hu'
    exact le_polygon hu hu' (by exact_mod_cast hb.low_open) (low_le_high hb) le_rfl
      (by exact_mod_cast hb.low_close)
  below := by
    intro u hu hu'
    exact polygon_le hu hu' (by exact_mod_cast hb.open_high) le_rfl (low_le_high hb)
      (by exact_mod_cast hb.close_high)
  low := ⟨2/3,by norm_num,by norm_num,polygon_two_thirds⟩
  high := ⟨1/3,by norm_num,by norm_num,polygon_third⟩

theorem forall₂_lowFirst (hbars : ∀ b ∈ bars, b.WellFormed) :
    List.Forall₂ Follows bars (bars.map lowFirst) := by
  rw [List.forall₂_map_right_iff,List.forall₂_same]
  exact fun b hb => follows_lowFirst (hbars b hb)

/-- Until it makes the low, the path that makes it first stays below the open. -/
theorem lowFirst_le (hb : b.WellFormed) {u : ℝ} (hu : 0 ≤ u) (hu' : u ≤ 1/3) :
    lowFirst b u ≤ b.openPrice := by
  rw [lowFirst,polygon,if_pos hu']
  exact segment_le (by linarith) (by linarith) le_rfl (by exact_mod_cast hb.low_open)

/-- Until it makes the high, the path that makes it first stays above the open. -/
theorem le_highFirst (hb : b.WellFormed) {u : ℝ} (hu : 0 ≤ u) (hu' : u ≤ 1/3) :
    (b.openPrice : ℝ) ≤ highFirst b u := by
  rw [highFirst,polygon,if_pos hu']
  exact le_segment (by linarith) (by linarith) le_rfl (by exact_mod_cast hb.open_high)

/-- When the target is not reached first, paths that make the lows first do not reach it. -/
theorem exists_exits_lt (ht : t.direction=.long) (htp : t.tp=some tp) (hlt : t.stop<tp)
    (hbars : ∀ b ∈ bars, b.WellFormed) (hne : bars ≠ []) (h : ¬TargetFirst .long t.stop tp bars) :
    ∃ x, Exits t.exitSet 0 (bars.map lowFirst) x ∧ x<tp := by
  have hltR : (t.stop : ℝ)<tp := by exact_mod_cast hlt
  induction bars with
  | nil => exact absurd rfl hne
  | cons b bars ih =>
    obtain ⟨hb,hbars⟩ := List.forall_mem_cons.mp hbars
    have hp := follows_lowFirst hb
    simp only [TargetFirst,NoBetter,hitStop,hitTp,decide_eq_true_eq,not_or,not_and,not_le] at h
    obtain ⟨hopen,hnext⟩ := h
    have hopenR : (b.openPrice : ℝ)<tp := by exact_mod_cast hopen
    by_cases hlow : b.low ≤ t.stop
    · have hthird : lowFirst b (1/3) ∈ t.exitSet := by
        rw [mem_exitSet_long ht,lowFirst,polygon_third]
        exact .inl (by exact_mod_cast hlow)
      obtain ⟨τ,hτ⟩ := exists_firstAt hp.continuous (isClosed_exitSet _ _ _) le_rfl
        ⟨1/3,by norm_num,by norm_num,hthird⟩
      have hτ' : τ ≤ 1/3 := hτ.2 ⟨by norm_num,by norm_num,hthird⟩
      exact ⟨_,.touched hτ,(lowFirst_le hb hτ.1.1 hτ').trans_lt hopenR⟩
    · obtain ⟨hhigh,hnext⟩ := hnext (not_le.mp hlow)
      have hhighR : (b.high : ℝ)<tp := by exact_mod_cast hhigh
      have hlowR : (t.stop : ℝ)<b.low := by exact_mod_cast not_le.mp hlow
      have hun : ∀ u, 0 ≤ u → u ≤ 1 → lowFirst b u ∉ t.exitSet := by
        intro u hu hu'
        rw [mem_exitSet_long ht]
        rintro (hmem | ⟨y,hy,hmem⟩)
        · exact absurd hmem (not_le.mpr (hlowR.trans_le (hp.above u hu hu')))
        · cases htp.symm.trans hy
          exact absurd hmem (not_le.mpr ((hp.below u hu hu').trans_lt hhighR))
      cases bars with
      | nil => exact ⟨_,.horizon hun,(hp.below 1 zero_le_one le_rfl).trans_lt hhighR⟩
      | cons c bars =>
        obtain ⟨x,hx,hlt⟩ := ih hbars (by simp) hnext
        exact ⟨x,.passed hun hx,hlt⟩

/-- A path through the bar of the fill is continued to both sides. -/
theorem exists_fills (hbars : ∀ b ∈ bars, b.WellFormed)
    (hwhile : bars.dropWhile (fun b => !hitStop .long lim b)=b::rest) (hp : Follows b p)
    (hqs : List.Forall₂ Follows rest qs) (hfirst : FirstAt p (fillSet .long lim) 0 s) :
    ∃ ps, List.Forall₂ Follows bars ps ∧ Fills (fillSet .long lim) ps (p s) s (p::qs) := by
  induction bars with
  | nil => cases hwhile
  | cons c bars ih =>
    obtain ⟨hc,hbars⟩ := List.forall_mem_cons.mp hbars
    by_cases hhit : hitStop .long lim c
    · rw [List.dropWhile_cons_of_neg (by simp [hhit])] at hwhile
      cases hwhile
      exact ⟨p::qs,.cons hp hqs,.here hfirst⟩
    · rw [List.dropWhile_cons_of_pos (by simpa using hhit)] at hwhile
      obtain ⟨ps,hps,hfills⟩ := ih hbars hwhile
      have hpc := follows_lowFirst hc
      refine ⟨lowFirst c::ps,.cons hpc hps,.later ?_ hfills⟩
      intro u hu hu' hmem
      apply hhit
      apply decide_eq_true
      exact_mod_cast (hpc.above u hu hu').trans hmem

/-- The code finds the fill in the first bar that touches the limit. -/
theorem exists_findTouch {d : Direction} (i : ℕ)
    (hwhile : bars.dropWhile (fun b => !hitStop d lim b)=b::rest) :
    ∃ k, findTouch d lim i bars=some (k,limitFill d lim b) := by
  induction bars generalizing i with
  | nil => cases hwhile
  | cons c bars ih =>
    unfold findTouch
    by_cases hhit : hitStop d lim c
    · rw [List.dropWhile_cons_of_neg (by simp [hhit])] at hwhile
      cases hwhile
      exact ⟨i,if_pos hhit⟩
    · rw [List.dropWhile_cons_of_pos (by simpa using hhit)] at hwhile
      rw [if_neg hhit]
      exact ih (i+1) hwhile

/-- In the middle of a bar a limit fills at its price. -/
theorem eq_of_firstAt (hp : Follows b p) (hopen : lim<b.openPrice)
    (hfirst : FirstAt p (fillSet .long lim) 0 s) : p s=lim := by
  refine le_antisymm hfirst.1.2.2 ?_
  refine hfirst.le hp.continuous le_rfl (show (lim : ℝ) ≤ lim from le_rfl) ?_
  rw [hp.opens]
  exact_mod_cast hopen.le

/-- A target below the open that is made good after the fill only. -/
theorem exists_worse_gapped (ht : t.direction=.long) (htp : t.tp=some tp) (hb : b.WellFormed)
    (hrest : ∀ b ∈ rest, b.WellFormed) (hopen : lim<b.openPrice) (hlow : b.low ≤ lim)
    (hhigh : tp ≤ b.high) (hgap : tp<b.openPrice) : ∃ p qs s x, Follows b p ∧
      List.Forall₂ Follows rest qs ∧ FirstAt p (fillSet .long lim) 0 s ∧
      Exits t.exitSet s (p::qs) x ∧ x<b.openPrice := by
  have hp := follows_lowFirst hb
  have hthird : lowFirst b (1/3) ≤ lim := by
    rw [lowFirst,polygon_third]
    exact_mod_cast hlow
  obtain ⟨s,hs⟩ := exists_firstAt hp.continuous (isClosed_fillSet .long (lim : ℝ)) le_rfl
    ⟨1/3,by norm_num,by norm_num,hthird⟩
  have hs' : s ≤ 1/3 := hs.2 ⟨by norm_num,by norm_num,hthird⟩
  have hps := eq_of_firstAt hp hopen hs
  have hmem : ∀ u, (tp : ℝ) ≤ lowFirst b u → lowFirst b u ∈ t.exitSet := fun u hu =>
    (mem_exitSet_long ht).mpr (.inr ⟨tp,htp,hu⟩)
  have htwo : (tp : ℝ) ≤ lowFirst b (2/3) := by
    rw [lowFirst,polygon_two_thirds]
    exact_mod_cast hhigh
  obtain ⟨τ,hτ⟩ := exists_firstAt hp.continuous (isClosed_exitSet _ _ _) hs.1.1
    ⟨2/3,by linarith,by norm_num,hmem _ htwo⟩
  refine ⟨lowFirst b,_,s,_,hp,forall₂_lowFirst hrest,hs,.touched hτ,?_⟩
  by_cases hside : lim ≤ tp
  · have hle : lowFirst b τ ≤ tp := by
      refine hτ.ge hp.continuous hs.1.1 ((mem_exitSet_long ht).mpr (.inr ⟨tp,htp,le_rfl⟩)) ?_
      rw [hps]
      exact_mod_cast hside
    exact hle.trans_lt (by exact_mod_cast hgap)
  · have hstart : lowFirst b s ∈ t.exitSet := by
      apply hmem
      rw [hps]
      exact_mod_cast (not_le.mp hside).le
    cases hτ.unique (.of_start hs.1.2.1 hstart)
    rw [hps]
    exact_mod_cast hopen

/-- A high that is made before the fill only. -/
theorem exists_worse_high (ht : t.direction=.long) (htp : t.tp=some tp) (hb : b.WellFormed)
    (hrest : ∀ b ∈ rest, b.WellFormed) (hopen : lim<b.openPrice) (hlow : b.low ≤ lim)
    (hstop : t.stop<b.low) (hgap : b.openPrice ≤ tp) (hclose : b.close<tp)
    (hnext : ¬TargetFirst .long t.stop tp rest) : ∃ p qs s x, Follows b p ∧
      List.Forall₂ Follows rest qs ∧ FirstAt p (fillSet .long lim) 0 s ∧
      Exits t.exitSet s (p::qs) x ∧ x<tp := by
  have hp := follows_highFirst hb
  have htwo : highFirst b (2/3) ≤ lim := by
    rw [highFirst,polygon_two_thirds]
    exact_mod_cast hlow
  obtain ⟨s,hs⟩ := exists_firstAt hp.continuous (isClosed_fillSet .long (lim : ℝ)) le_rfl
    ⟨2/3,by norm_num,by norm_num,htwo⟩
  have hs' : s ≤ 2/3 := hs.2 ⟨by norm_num,by norm_num,htwo⟩
  have hps := eq_of_firstAt hp hopen hs
  have hopenR : (lim : ℝ)<b.openPrice := by exact_mod_cast hopen
  have hlimR : (lim : ℝ)<tp := by exact_mod_cast hopen.trans_le hgap
  have hlowR : (b.low : ℝ)<tp := lt_of_le_of_lt (by exact_mod_cast hlow) hlimR
  have hcloseR : (b.close : ℝ)<tp := by exact_mod_cast hclose
  have hs'' : 1/3<s := by
    by_contra h
    have hle := le_highFirst hb hs.1.1 (not_lt.mp h)
    rw [hps] at hle
    exact absurd hopenR (not_lt.mpr hle)
  -- after the fill the price falls from the limit to the low and goes from there to the close
  have hafter : ∀ u, s ≤ u → u ≤ 1 → highFirst b u<tp := by
    intro u hu hu'
    by_cases hleg : u ≤ 2/3
    · have hdown : highFirst b u ≤ highFirst b s := by
        rw [highFirst,polygon,polygon,if_neg (by linarith),if_pos hleg,if_neg (by linarith),if_pos hs']
        nlinarith [low_le_high hb]
      rw [hps] at hdown
      exact hdown.trans_lt hlimR
    · have hup : highFirst b u ≤ max (b.low : ℝ) b.close := by
        rw [highFirst,polygon,if_neg (by linarith),if_neg hleg]
        exact segment_le (by linarith) (by linarith) (le_max_left _ _) (le_max_right _ _)
      exact hup.trans_lt (max_lt hlowR hcloseR)
  have hun : ∀ u, s ≤ u → u ≤ 1 → highFirst b u ∉ t.exitSet := by
    intro u hu hu'
    rw [mem_exitSet_long ht]
    have hstopR : (t.stop : ℝ)<b.low := by exact_mod_cast hstop
    rintro (hmem | ⟨y,hy,hmem⟩)
    · exact absurd hmem (not_le.mpr (hstopR.trans_le (hp.above u (hs.1.1.trans hu) hu')))
    · cases htp.symm.trans hy
      exact absurd hmem (not_le.mpr (hafter u hu hu'))
  cases rest with
  | nil =>
    refine ⟨highFirst b,[],s,_,hp,.nil,hs,.horizon hun,?_⟩
    rw [hp.closes]
    exact hcloseR
  | cons c rest =>
    have hlt : t.stop<tp := hstop.trans_le (hlow.trans (hopen.le.trans hgap))
    obtain ⟨x,hx,hxlt⟩ := exists_exits_lt ht htp hlt hrest (by simp) hnext
    exact ⟨highFirst b,_,s,x,hp,forall₂_lowFirst hrest,hs,.passed hun hx,hxlt⟩

/-- A long order that is pessimistic satisfies the condition. -/
theorem targetAfterFill_long (hd : inp.direction=.long) (hbars : ∀ b ∈ inp.bars, b.WellFormed)
    (h : Pessimistic inp) : TargetAfterFill inp := by
  intro lim tp b rest hentry hlimit htp hwhile
  rw [hd] at hwhile ⊢
  by_contra hrel
  simp only [Reliable,NoBetter,hitStop,hitTp,decide_eq_true_eq,not_or,not_le] at hrel
  obtain ⟨hopen,hstop,hhigh,hahead⟩ := hrel
  have hhigh : tp ≤ b.high := not_lt.mp hhigh
  -- the code fills at the limit in this bar and credits the target
  obtain ⟨k,htouch⟩ := exists_findTouch 0 hwhile
  obtain ⟨c,tail,hdrop,hwhile',hhit,-,-⟩ := findTouch_eq_some htouch
  cases hwhile.symm.trans hwhile'
  have hlow : b.low ≤ lim := of_decide_eq_true hhit
  have hdropped : ∀ c ∈ b::rest, c.WellFormed := by
    intro c hc
    rw [← hdrop] at hc
    exact hbars c (List.mem_of_mem_drop hc)
  obtain ⟨hb,hrest⟩ := List.forall_mem_cons.mp hdropped
  rw [limitFill,min_eq_right hopen.le] at htouch
  have hpos : 0<sgn inp.direction*(lim-inp.stop) := by
    rw [hd,sgn,one_mul]
    exact sub_pos.mpr (hstop.trans_le hlow)
  obtain ⟨t,ht⟩ : ∃ t, openTrade inp.direction lim inp.stop inp.tp=some t := by
    dsimp only [openTrade]
    rw [if_neg (not_not.mpr hpos)]
    exact ⟨_,rfl⟩
  have hC := exitSet_of_openTrade ht
  have hfields := (openTrade_eq_some ht).1
  have hdir : t.direction=.long := by rw [hfields]; exact hd
  have hts : t.stop=inp.stop := by rw [hfields]
  have htt : t.tp=some tp := by rw [hfields]; exact htp
  have hne : inp.bars ≠ [] := by
    intro hnil
    rw [hnil] at hwhile
    cases hwhile
  obtain ⟨last,hlast⟩ : ∃ last, inp.bars.getLast?=some last :=
    ⟨_,List.getLast?_eq_some_getLast hne⟩
  have hfill : findFill inp.direction inp.entry inp.limitPrice inp.bars=some (k,lim) := by
    rw [hd,hentry,hlimit]
    unfold findFill
    split
    next hnil => exact absurd hnil hne
    next => exact htouch
  have hr := simulateOutcome_r_eq_some.mpr ⟨last,k,lim,t,hlast,hfill,ht,rfl⟩
  rw [Nat.sub_zero] at hdrop
  rw [hdrop] at hr
  have hworse : ∃ p qs s x, Follows b p ∧ List.Forall₂ Follows rest qs ∧
      FirstAt p (fillSet .long lim) 0 s ∧ Exits t.exitSet s (p::qs) x ∧
      x<(t.leaves (b::rest) last.close : ℝ) := by
    have hexit := exit_long (b := b) hdir
    rw [hts,if_neg (not_le.mpr hstop),htt,Option.bind_some,if_pos hhigh] at hexit
    rw [leaves_of_exit hexit]
    dsimp only
    by_cases hgap : tp<b.openPrice
    · rw [if_pos hgap]
      exact exists_worse_gapped hdir htt hb hrest hopen hlow hhigh hgap
    · rw [if_neg hgap]
      have hnot := not_or.mp fun h => hahead ⟨not_lt.mp hgap,h⟩
      rw [← hts] at hnot hstop
      exact exists_worse_high hdir htt hb hrest hopen hlow hstop (not_lt.mp hgap)
        (not_le.mp hnot.1) hnot.2
  obtain ⟨p,qs,s,x,hp,hqs,hfirst,hexits,hlt⟩ := hworse
  obtain ⟨ps,hps,hfills⟩ := exists_fills hbars hwhile hp hqs hfirst
  rw [hC] at hexits
  have hle := h ps hps _ (.limit hentry hlimit (hd ▸ hfills) hexits) _ hr
  have hstopR : (inp.stop : ℝ)<lim := by exact_mod_cast hstop.trans_le hlow
  rw [cast_tradeR ht,eq_of_firstAt hp hopen hfirst,realR_le_realR hd hstopR] at hle
  exact absurd hlt (not_lt.mpr hle)

end
end TradeGate.Outcomes
