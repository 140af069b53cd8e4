import TradeGate.Daemon.Budget
import TradeGate.Number.Safe

/-! What the limiter of the process asks a request to wait, and when it panics. -/
namespace TradeGate.RestRateLimiter
open Machine

/-- The total that is waited before the answer is ready, when the gate is asked again as soon as it says, and at
most `n` times. -/
def waits : ℕ → Option RestRateLimiter → ℚ → ℚ → Option ℚ
  | 0, _, _, _ => none
  | n+1, l, weight, now =>
    match answer l weight now with
    | some .ready => some 0
    | some (.wait span) => (waits n (after l (.gate weight now)) weight (now+span)).map (span + ·)
    | _ => none

/-- After the calls the gate answers every weight at every instant. -/
def Answers (l : RestRateLimiter) (cs : List Call) : Prop :=
  ∀ weight now, answer (run after (some l) cs) weight now ≠ none

/-- A second more than the span of a ban has room. -/
def Call.Roomy : Call → Prop
  | limited _ banFor => ∀ span ∈ banFor, span+1<2^64
  | _ => True

instance : DecidablePred Call.Roomy
  | .limited _ banFor => inferInstanceAs (Decidable (∀ span ∈ banFor, span+1<2^64))
  | .gate _ _ | .observe _ _ => .isTrue trivial

/-- The numbers of the call are doubles, and its ban has room. -/
def Call.Proper : Call → Prop
  | gate weight _ => f64 weight=weight
  | observe used _ => f64 used=used
  | c => c.Roomy

/-- Whatever has come before, a request that nobody disturbs when there is no ban is let through after no
longer than its weight takes to flow in. -/
def Prompt (l : RestRateLimiter) (weight : ℚ) : Prop :=
  ∀ cs m, (∀ c ∈ cs, c.Proper) → run after (some l) cs=some m → ∀ now, m.blockedUntil ≤ now →
    ∃ k total, (∀ n, k ≤ n → waits n (some m) weight now=some total) ∧
      total ≤ min weight l.capacity/l.refillPerSecond

/-! Doubles. -/
section
variable {x y : ℚ}

theorem f64_of_round (h : Double.round x=.fin y) : f64 x=y := by
  unfold f64
  rw [h]

theorem f64_eq (h : 0 ≤ x) : f64 x=min (Double.nearest x) (2^1024) := by
  have hpos := Double.nearest_nonneg h
  unfold f64
  rw [Double.round_eq,abs_of_nonneg hpos]
  by_cases hbig : (2 : ℚ)^1024 ≤ Double.nearest x
  · rw [if_pos hbig,min_eq_right hbig]
    exact if_neg (by simpa using h)
  · rw [if_neg hbig,min_eq_left (not_le.mp hbig).le]

theorem f64_mono (h₀ : 0 ≤ x) (h : x ≤ y) : f64 x ≤ f64 y := by
  rw [f64_eq h₀,f64_eq (h₀.trans h)]
  exact min_le_min_right _ (Double.nearest_mono h₀ h)

theorem f64_zero : f64 0=0 := f64_of_round (by decide +kernel)

theorem tame_f64 (h : Double.round x=.fin x) : Tame f64 x :=
  ⟨fun _ _ => f64_mono,f64_zero,f64_of_round h⟩

/-- Multiples of a power of two. -/
theorem f64_multiple {m p : ℤ} (hm : |m|<2^53) (hp : -1074 ≤ p) (hsmall : (m : ℚ)*(2 : ℚ)^p<2^1024) (hpos : 0 ≤ m) :
    f64 ((m : ℚ)*(2 : ℚ)^p)=(m : ℚ)*(2 : ℚ)^p := by
  refine f64_of_round (Double.round_multiple hm hp ?_)
  have hnonneg : 0 ≤ (m : ℚ)*(2 : ℚ)^p := mul_nonneg (by exact_mod_cast hpos) (Double.two_zpow_pos p).le
  rw [abs_of_nonneg hnonneg]
  exact not_le.mpr hsmall

theorem f64_two_zpow {p : ℤ} (hp : -1074 ≤ p) (hsmall : p<1024) : f64 ((2 : ℚ)^p)=(2 : ℚ)^p := by
  have h := f64_multiple (m := 1) (p := p) (by norm_num) hp
    (by
      rw [Int.cast_one,one_mul,← zpow_natCast]
      exact zpow_lt_zpow_right₀ (by norm_num) hsmall) (by norm_num)
  rwa [Int.cast_one,one_mul] at h

/-- Less than half a nanosecond is none. -/
theorem nanos_of_lt (h₀ : 0 ≤ x) (h : x ≤ (2 : ℚ)^(-46 : ℤ)) : nanos x=0 := by
  have hsmall : x*10^9<1/2 := by
    have hle : x*10^9 ≤ (2 : ℚ)^(-46 : ℤ)*10^9 := mul_le_mul_of_nonneg_right h (by positivity)
    refine hle.trans_lt ?_
    norm_num
  have hfloor : ⌊x*10^9⌋=0 := Int.floor_eq_zero_iff.mpr ⟨by positivity,by linarith⟩
  have hround : Double.halfEven (x*10^9)=0 := by
    unfold Double.halfEven
    rw [hfloor]
    dsimp only
    rw [if_pos (by simpa using hsmall)]
  rw [nanos,hround]
  norm_num

end

/-- The exponent of a budget, and the rate at which it flows in. -/
theorem rate_bounds {budget : ℚ} (hb : 1 ≤ budget) (hdouble : Double.round budget=.fin budget) :
    ∃ e : ℤ, 0 ≤ e ∧ e<1024 ∧ (2 : ℚ)^e ≤ budget ∧ budget<(2 : ℚ)^(e+1) ∧ (2 : ℚ)^(e-6) ≤ f64 (budget/60) := by
  have hpos : 0<budget := by linarith
  have hlo : (2 : ℚ)^Int.log 2 budget ≤ budget := by exact_mod_cast Int.zpow_log_le_self (b := 2) (by norm_num) hpos
  have hhi : budget<(2 : ℚ)^(Int.log 2 budget+1) := by
    exact_mod_cast Int.lt_zpow_succ_log_self (b := 2) (by norm_num) budget
  have hlt : budget<(2 : ℚ)^(1024 : ℤ) := by
    rw [Double.round_eq] at hdouble
    split at hdouble
    · cases hdouble
    next hsmall =>
      rw [Js.Num.fin.inj hdouble,abs_of_pos hpos] at hsmall
      exact_mod_cast not_le.mp hsmall
  have he₀ : 0 ≤ Int.log 2 budget := by
    rw [← Int.zpow_le_iff_le_log (by norm_num) hpos]
    simpa using hb
  have he₁ : Int.log 2 budget<1024 := (zpow_lt_zpow_iff_right₀ (by norm_num)).mp (hlo.trans_lt hlt)
  refine ⟨_,he₀,he₁,hlo,hhi,?_⟩
  rw [← f64_two_zpow (p := Int.log 2 budget-6) (by omega) (by omega)]
  refine f64_mono (Double.two_zpow_pos _).le ?_
  rw [zpow_sub₀ (by norm_num),le_div_iff₀ (by norm_num),div_mul_eq_mul_div,div_le_iff₀ (by norm_num)]
  norm_num
  linarith

section
variable {budget rate weight now start : ℚ} {l l' : RestRateLimiter} {c : Call} {cs : List Call}

theorem tryGateAt_blocked (h : now<l.blockedUntil) : l.tryGateAt weight now=some
    (if l.blockedByExchange then .banned (l.blockedUntil-now) else .wait (l.blockedUntil-now),l.refill now) :=
  if_pos h

theorem tryGateAt_open (h : l.blockedUntil ≤ now) (hc : 1 ≤ l.capacity) : l.tryGateAt weight now=
    if l.charge weight ≤ (l.refill now).tokens then
      some (.ready,{ l.refill now with
        blockedByExchange := false, tokens := l.rounded ((l.refill now).tokens-l.charge weight) })
    else if l.refillPerSecond=0 then none
    else (fromSecs ((l.refill now).lack (l.charge weight))).map fun span =>
      (.wait span,{ l.refill now with blockedByExchange := false }) := by
  have hclamp : clamp weight 1 l.capacity=some (l.charge weight) := if_pos hc
  refine (if_neg (not_lt.mpr h)).trans ?_
  change (clamp weight 1 l.capacity).bind _=_
  rw [hclamp]
  rfl

/-- The bounds of the clamp are the wrong way round. -/
theorem tryGateAt_fails (h : l.blockedUntil ≤ now) (hc : ¬1 ≤ l.capacity) : l.tryGateAt weight now=none := by
  have hclamp : clamp weight 1 l.capacity=none := if_neg hc
  refine (if_neg (not_lt.mpr h)).trans ?_
  change (clamp weight 1 l.capacity).bind _=_
  rw [hclamp]
  rfl

theorem charge_le (h : Held f64 budget rate l) (hb : 1 ≤ budget) (weight : ℚ) : l.charge weight ≤ budget := by
  rw [charge,h.capacity_eq]
  exact max_le hb (min_le_right _ _)

/-- The limiter of a budget that is a double, and at least a single request. -/
structure Sound (budget : ℚ) (l : RestRateLimiter) : Prop where
  held : Held f64 budget (f64 (budget/60)) l
  one_le : 1 ≤ budget
  double : Double.round budget=.fin budget

theorem Sound.rate_pos (h : Sound budget l) : 0<l.refillPerSecond := by
  obtain ⟨e,-,-,-,-,hrate⟩ := rate_bounds h.one_le h.double
  rw [h.held.rate_eq]
  exact (Double.two_zpow_pos _).trans_le hrate

theorem Sound.refill (h : Sound budget l) (now : ℚ) : Sound budget (l.refill now) :=
  ⟨h.held.refill (tame_f64 h.double) (h.held.rate_eq ▸ h.rate_pos.le) now,h.one_le,h.double⟩

/-- A request that waits for tokens waits about two minutes at most. -/
theorem Sound.lack_bounds (h : Sound budget l) (weight : ℚ) (ht : l.tokens ≤ l.charge weight) :
    0 ≤ l.lack (l.charge weight) ∧ l.lack (l.charge weight)<2^64 := by
  obtain ⟨e,he₀,he₁,hlo,hhi,hrate⟩ := rate_bounds h.one_le h.double
  have htame := tame_f64 h.double
  have hlack : 0 ≤ l.charge weight-l.tokens := sub_nonneg.mpr ht
  have hle : l.charge weight-l.tokens ≤ budget := by linarith [h.held.nonneg,charge_le h.held h.one_le weight]
  have hmissing : f64 (l.charge weight-l.tokens) ≤ budget := (f64_mono hlack hle).trans htame.capacity_eq.le
  have hmissing₀ : 0 ≤ f64 (l.charge weight-l.tokens) := htame.nonneg hlack
  have hquot₀ : 0 ≤ f64 (l.charge weight-l.tokens)/f64 (budget/60) :=
    div_nonneg hmissing₀ ((Double.two_zpow_pos _).le.trans hrate)
  have hquot : f64 (l.charge weight-l.tokens)/f64 (budget/60) ≤ (2 : ℚ)^(7 : ℤ) := by
    rw [div_le_iff₀ ((Double.two_zpow_pos _).trans_le hrate)]
    have hscale : (2 : ℚ)^(7 : ℤ)*(2 : ℚ)^(e-6)=(2 : ℚ)^(e+1) := by
      rw [← zpow_add₀ (by norm_num)]
      congr 1
      omega
    have hmul := mul_le_mul_of_nonneg_left hrate (Double.two_zpow_pos 7).le
    rw [hscale] at hmul
    exact hmissing.trans (hhi.le.trans hmul)
  rw [lack,h.held.rounded_eq,h.held.rate_eq]
  refine ⟨htame.nonneg hquot₀,(f64_mono hquot₀ hquot).trans_lt ?_⟩
  rw [f64_two_zpow (by norm_num) (by norm_num)]
  norm_num

/-- Where a single request fits, the gate answers. -/
theorem Sound.gate_isSome (h : Sound budget l) (weight now : ℚ) : (l.tryGateAt weight now).isSome := by
  by_cases hnow : now<l.blockedUntil
  · rw [tryGateAt_blocked hnow]
    rfl
  · rw [tryGateAt_open (not_lt.mp hnow) (h.held.capacity_eq ▸ h.one_le)]
    by_cases ht : l.charge weight ≤ (l.refill now).tokens
    · rw [if_pos ht]
      rfl
    · have hlack := (h.refill now).lack_bounds weight (not_le.mp ht).le
      have hspan : fromSecs ((l.refill now).lack (l.charge weight))=
          some (nanos ((l.refill now).lack (l.charge weight))) := if_pos hlack
      rw [if_neg ht,if_neg h.rate_pos.ne',hspan]
      rfl

theorem Sound.after_isSome (h : Sound budget l) (hc : c.Roomy) : (after (some l) c).isSome := by
  cases c with
  | gate weight now =>
    rw [after,Option.bind_some,Option.isSome_map]
    exact h.gate_isSome weight now
  | observe used now => rfl
  | limited now banFor =>
    have hroom : ¬∃ span ∈ banFor, 2^64 ≤ span+1 := by
      rintro ⟨span,hspan,hbig⟩
      exact absurd (hc span hspan) (not_lt.mpr hbig)
    change (l.tryRateLimitedFor now banFor).isSome
    rw [tryRateLimitedFor,if_neg hroom]
    rfl

/-- All along a run whose bans have room the limiter stands. -/
theorem Sound.run (h : Sound budget l) (hcs : ∀ c ∈ cs, c.Roomy) :
    ∃ m, run after (some l) cs=some m ∧ Sound budget m := by
  induction cs generalizing l with
  | nil => exact ⟨l,rfl,h⟩
  | cons c cs ih =>
    obtain ⟨hc,hcs⟩ := List.forall_mem_cons.mp hcs
    obtain ⟨l',ha⟩ := Option.isSome_iff_exists.mp (h.after_isSome hc)
    rw [run_cons,ha]
    exact ih ⟨h.held.after (tame_f64 h.double) (h.held.rate_eq ▸ h.rate_pos.le) ha,h.one_le,h.double⟩ hcs

theorem run_after_none (cs : List Call) : run after none cs=none := by
  induction cs with
  | nil => rfl
  | cons c cs ih => exact ih

/-- A ban without room leaves the lock poisoned. -/
theorem roomy_of_run (h : run after (some l) cs ≠ none) : ∀ c ∈ cs, c.Roomy := by
  induction cs generalizing l with
  | nil => exact List.forall_mem_nil _
  | cons c cs ih =>
    rw [run_cons] at h
    cases ha : after (some l) c with
    | none => exact absurd (ha ▸ run_after_none cs) h
    | some l' =>
      rw [ha] at h
      refine List.forall_mem_cons.mpr ⟨?_,ih h⟩
      cases c with
      | limited now banFor =>
        intro span hspan
        by_contra hbig
        have hnone : after (some l) (.limited now banFor)=none := if_pos ⟨span,hspan,not_lt.mp hbig⟩
        rw [hnone] at ha
        cases ha
      | gate weight now => trivial
      | observe used now => trivial

theorem run_capacity {m : RestRateLimiter} (h : run after (some l) cs=some m) : m.capacity=l.capacity := by
  induction cs generalizing l with
  | nil =>
    cases h
    rfl
  | cons c cs ih =>
    rw [run_cons] at h
    cases ha : after (some l) c with
    | none =>
      rw [ha,run_after_none] at h
      cases h
    | some l' =>
      rw [ha] at h
      exact (ih h).trans (after_capacity ha)

theorem sound_new (hb : 1 ≤ budget) (hdouble : Double.round budget=.fin budget) (start : ℚ) :
    Sound budget (.new f64 budget budget start) := ⟨held_new (by linarith) start,hb,hdouble⟩

/-- The gate answers after the calls just when a single request fits, and every ban has room. -/
theorem answers_iff (hdouble : Double.round budget=.fin budget) :
    Answers (.new f64 budget budget start) cs ↔ 1 ≤ budget ∧ ∀ c ∈ cs, c.Roomy := by
  constructor
  · intro h
    have hrun : run after (some (.new f64 budget budget start)) cs ≠ none := by
      intro hnone
      exact h 1 0 (by rw [hnone]; rfl)
    refine ⟨?_,roomy_of_run hrun⟩
    by_contra hb
    obtain ⟨m,hm⟩ := Option.ne_none_iff_exists'.mp hrun
    have hcap : m.capacity=budget := run_capacity hm
    refine h 1 m.blockedUntil ?_
    rw [hm,answer,Option.bind_some,tryGateAt_fails le_rfl (hcap ▸ hb)]
    rfl
  · rintro ⟨hb,hcs⟩ weight now
    obtain ⟨m,hm,hsound⟩ := (sound_new hb hdouble start).run hcs
    obtain ⟨⟨g,m'⟩,hg⟩ := Option.isSome_iff_exists.mp (hsound.gate_isSome weight now)
    rw [hm,answer,Option.bind_some,hg]
    simp

/-! ### Less than half a nanosecond -/

/-- The tokens do not suffice, but what is lacked flows in within less than half a nanosecond. -/
structure Stuck (weight now : ℚ) (l : RestRateLimiter) : Prop where
  fits : 1 ≤ l.capacity
  flows : l.refillPerSecond ≠ 0
  opened : l.blockedUntil ≤ now
  lacks : (l.refill now).tokens<l.charge weight
  settled : (l.refill now).refill now=l.refill now
  soon : 0 ≤ (l.refill now).lack (l.charge weight) ∧ (l.refill now).lack (l.charge weight)<2^64 ∧
    nanos ((l.refill now).lack (l.charge weight))=0

theorem Stuck.gate (h : Stuck weight now l) :
    l.tryGateAt weight now=some (.wait 0,{ l.refill now with blockedByExchange := false }) := by
  obtain ⟨hlo,hhi,hzero⟩ := h.soon
  have hspan : fromSecs ((l.refill now).lack (l.charge weight))=some 0 := by
    rw [fromSecs,if_pos ⟨hlo,hhi⟩,hzero]
  rw [tryGateAt_open h.opened h.fits,if_neg (not_le.mpr h.lacks),if_neg h.flows,hspan]
  rfl

/-- The gate says again that nothing is to be waited. -/
theorem Stuck.again (h : Stuck weight now l) :
    Stuck weight now { l.refill now with blockedByExchange := false } := by
  have hrefill : RestRateLimiter.refill { l.refill now with blockedByExchange := false } now=
      { l.refill now with blockedByExchange := false } :=
    congrArg (fun m : RestRateLimiter => { m with blockedByExchange := false }) h.settled
  refine ⟨h.fits,h.flows,h.opened,?_,?_,?_⟩
  · rw [hrefill]
    exact h.lacks
  · rw [hrefill,hrefill]
  · rw [hrefill]
    exact h.soon

theorem Stuck.waits (h : Stuck weight now l) (n : ℕ) : waits n (some l) weight now=none := by
  induction n generalizing l with
  | zero => rfl
  | succ n ih =>
    have hgate := h.gate
    have hanswer : answer (some l) weight now=some (.wait 0) := congrArg (Option.map Prod.fst) hgate
    have hafter : after (some l) (.gate weight now)=some { l.refill now with blockedByExchange := false } :=
      congrArg (Option.map Prod.snd) hgate
    rw [RestRateLimiter.waits,hanswer,hafter]
    dsimp only
    rw [add_zero,ih h.again]
    rfl

theorem asSecs_zero (h : l.rounded=f64) : l.asSecs 0=0 := by
  rw [asSecs,h,Int.floor_zero,Int.fract_zero,Int.cast_zero,f64_zero,add_zero,f64_zero]

/-- No time has passed since the tokens were counted. -/
theorem refill_now (h : l.rounded=f64) (hu : l.updatedAt=now) (ht : f64 l.tokens=l.tokens) (hle : l.tokens ≤ l.capacity) :
    l.refill now=l := by
  have hzero : l.asSecs (max (now-l.updatedAt) 0)=0 := by rw [hu,sub_self,max_self,asSecs_zero h]
  have htokens : min (l.rounded (l.tokens+l.rounded (l.asSecs (max (now-l.updatedAt) 0)*l.refillPerSecond))) l.capacity=
      l.tokens := by
    rw [hzero,zero_mul,h,f64_zero,add_zero,ht,min_eq_left hle]
  unfold refill
  dsimp only
  rw [htokens,← hu]

/-- Just below an amount there is a number of tokens that a report of the exchange can leave. -/
theorem exists_below (hb : 1 ≤ budget) (hdouble : Double.round budget=.fin budget) {charge : ℚ} (h₁ : 1 ≤ charge)
    (h₂ : charge ≤ budget) : ∃ tokens used, 0 ≤ tokens ∧ 0 ≤ used ∧ tokens<charge ∧ budget-used=tokens ∧
      f64 tokens=tokens ∧ f64 used=used ∧ 0 ≤ f64 (charge-tokens)/f64 (budget/60) ∧
      f64 (charge-tokens)/f64 (budget/60) ≤ (2 : ℚ)^(-46 : ℤ) := by
  obtain ⟨e,he₀,he₁,hlo,hhi,hrate⟩ := rate_bounds hb hdouble
  have hpos : 0<budget := by linarith
  have hg := Double.two_zpow_pos (e-52)
  have hmax : budget<2^1024 := by
    refine hhi.trans_le ?_
    rw [← zpow_natCast]
    exact zpow_le_zpow_right₀ (by norm_num) (by omega)
  -- the budget is a multiple of its last place
  obtain ⟨M,hM⟩ : ∃ M : ℤ, budget=M*(2 : ℚ)^(e-52) := by
    have hplace : Double.place budget=e-52 := by
      have hlog : Int.log 2 budget=e := by
        have h₁ := (Int.zpow_le_iff_le_log (b := 2) (by norm_num) hpos).mp (by exact_mod_cast hlo)
        have h₂ := (Int.lt_zpow_iff_log_lt (b := 2) (by norm_num) hpos).mp (by exact_mod_cast hhi)
        omega
      rw [Double.place,abs_of_pos hpos,hlog]
      omega
    rw [Double.round_eq] at hdouble
    split at hdouble
    · cases hdouble
    · have hnearest := (Js.Num.fin.inj hdouble).symm
      rw [Double.nearest,hplace] at hnearest
      exact ⟨_,hnearest⟩
  have hsplit : (2 : ℚ)^(e+1)=2^53*(2 : ℚ)^(e-52) := by
    rw [← zpow_natCast,← zpow_add₀ (by norm_num)]
    congr 1
    omega
  have hM53 : M<2^53 := by
    have hlt : (M : ℚ)*(2 : ℚ)^(e-52)<2^53*(2 : ℚ)^(e-52) := by rwa [← hM,← hsplit]
    exact_mod_cast lt_of_mul_lt_mul_right hlt hg.le
  -- the largest multiple below the amount
  have hceil := Int.ceil_lt_add_one (charge/(2 : ℚ)^(e-52))
  have hle := Int.le_ceil (charge/(2 : ℚ)^(e-52))
  have hk₀ : 0<⌈charge/(2 : ℚ)^(e-52)⌉ := Int.ceil_pos.mpr (div_pos (by linarith) hg)
  obtain ⟨k,hk⟩ : ∃ k : ℤ, ⌈charge/(2 : ℚ)^(e-52)⌉=k+1 := ⟨_,(sub_add_cancel _ 1).symm⟩
  rw [hk] at hceil hle hk₀
  push_cast at hceil hle
  rw [div_le_iff₀ hg] at hle
  have hlt : (k : ℚ)*(2 : ℚ)^(e-52)<charge := by
    rw [← lt_div_iff₀ hg]
    linarith
  have hkM : k<M := by
    have h := hlt.trans_le (h₂.trans hM.le)
    exact_mod_cast lt_of_mul_lt_mul_right h hg.le
  have hk53 : |k|<2^53 := by
    rw [abs_of_nonneg (by omega)]
    omega
  have hused : budget-(k : ℚ)*(2 : ℚ)^(e-52)=((M-k : ℤ) : ℚ)*(2 : ℚ)^(e-52) := by
    rw [hM]
    push_cast
    ring
  have hkg : 0 ≤ (k : ℚ)*(2 : ℚ)^(e-52) := mul_nonneg (by exact_mod_cast (by omega : 0 ≤ k)) hg.le
  have hmissing₀ : 0 ≤ charge-(k : ℚ)*(2 : ℚ)^(e-52) := by linarith
  have hmissing : f64 (charge-(k : ℚ)*(2 : ℚ)^(e-52)) ≤ (2 : ℚ)^(e-52) := by
    refine (f64_mono hmissing₀ (y := (2 : ℚ)^(e-52)) (by linarith)).trans_eq ?_
    exact f64_two_zpow (by omega) (by omega)
  have hrate₀ := (Double.two_zpow_pos (e-6)).trans_le hrate
  refine ⟨_,budget-(k : ℚ)*(2 : ℚ)^(e-52),hkg,?_,hlt,sub_sub_cancel _ _,?_,?_,?_,?_⟩
  · linarith
  · exact f64_multiple hk53 (by omega) ((hlt.trans_le h₂).trans hmax) (by omega)
  · rw [hused]
    refine f64_multiple ?_ (by omega) ?_ (by omega)
    · rw [abs_of_nonneg (by omega)]
      omega
    · rw [← hused]
      exact (sub_le_self budget hkg).trans_lt hmax
  · exact div_nonneg ((tame_f64 hdouble).nonneg hmissing₀) hrate₀.le
  · rw [div_le_iff₀ hrate₀]
    refine hmissing.trans (le_trans (le_of_eq ?_) (mul_le_mul_of_nonneg_left hrate (Double.two_zpow_pos _).le))
    rw [← zpow_add₀ (by norm_num)]
    congr 1
    omega

/-- The exchange can report a weight after which a request is told for ever to wait no time. -/
theorem exists_stuck (hb : 1 ≤ budget) (hdouble : Double.round budget=.fin budget) (weight start : ℚ) :
    ∃ used m, f64 used=used ∧ run after (some (.new f64 budget budget start)) [.observe used start]=some m ∧
      Stuck weight start m := by
  have hsound : Sound budget (.new f64 budget budget start) := sound_new hb hdouble start
  obtain ⟨tokens,used,ht₀,hu₀,hlt,hsub,hdt,hdu,hq₀,hq⟩ := @exists_below _ hb hdouble
    ((new f64 budget budget start).charge weight) (le_max_left _ _) (charge_le hsound.held hb weight)
  have htame := tame_f64 hdouble
  have hfull : (new f64 budget budget start).refill start=.new f64 budget budget start :=
    refill_now rfl rfl htame.capacity_eq le_rfl
  have hle : tokens ≤ budget := by linarith
  have hobserve : (new f64 budget budget start).observeUsedWeight used start=
      { new f64 budget budget start with tokens := tokens } := by
    unfold observeUsedWeight
    rw [if_neg (not_lt.mpr hu₀),hfull]
    change { new f64 budget budget start with tokens := min budget (max (f64 (budget-used)) 0) }=_
    rw [hsub,hdt,max_eq_left ht₀,min_eq_right hle]
  have hrefill : RestRateLimiter.refill { new f64 budget budget start with tokens := tokens } start=
      { new f64 budget budget start with tokens := tokens } := refill_now rfl rfl hdt hle
  refine ⟨used,_,hdu,congrArg some hobserve,⟨hb,hsound.rate_pos.ne',le_rfl,?_,?_,?_⟩⟩
  · rw [hrefill]
    exact hlt
  · rw [hrefill,hrefill]
  · rw [hrefill]
    have hsmall : f64 (f64 ((new f64 budget budget start).charge weight-tokens)/f64 (budget/60)) ≤ (2 : ℚ)^(-46 : ℤ) := by
      exact (f64_mono hq₀ hq).trans_eq (f64_two_zpow (by norm_num) (by norm_num))
    have hnonneg := htame.nonneg hq₀
    refine ⟨hnonneg,hsmall.trans_lt (by norm_num),nanos_of_lt hnonneg hsmall⟩

/-- No budget bounds the waits. -/
theorem not_prompt (hdouble : Double.round budget=.fin budget) (weight start : ℚ) :
    ¬Prompt (.new f64 budget budget start) weight := by
  intro h
  by_cases hb : 1 ≤ budget
  · obtain ⟨used,m,hused,hm,hstuck⟩ := exists_stuck hb hdouble weight start
    obtain ⟨k,total,htotal,-⟩ := h _ m (by simpa [Call.Proper] using hused) hm start hstuck.opened
    have hnone := htotal k le_rfl
    rw [hstuck.waits] at hnone
    cases hnone
  · obtain ⟨k,total,htotal,-⟩ := h [] _ (List.forall_mem_nil _) rfl start le_rfl
    have hnone := htotal (k+1) (Nat.le_succ k)
    have hfails : (new f64 budget budget start).tryGateAt weight start=none := tryGateAt_fails le_rfl hb
    rw [waits,answer,Option.bind_some,hfails] at hnone
    cases hnone

theorem configuredWeightPerMinute_double {value : Option ℚ} (h : ∀ x ∈ value, Double.round x=.fin x) :
    Double.round (configuredWeightPerMinute value)=.fin (configuredWeightPerMinute value) := by
  cases hv : value.filter fun budget => 0<budget with
  | none =>
    rw [configuredWeightPerMinute,hv]
    decide +kernel
  | some budget =>
    rw [configuredWeightPerMinute,hv]
    exact h budget (Option.filter_eq_some_iff.mp hv).1

end

/-- The limiter of the process answers after calls just when its budget lets a single request through and no
call has reported a ban of `2^64-1` seconds or more; and at no budget, for no weight, are the waits bounded as
they should be, because a wait of less than half a nanosecond is rounded to none. -/
theorem answers_iff_and_not_prompt {value : Option ℚ} (hvalue : ∀ x ∈ value, Double.round x=.fin x) (start weight : ℚ) :
    (∀ cs, Answers (shared value start) cs ↔ 1 ≤ configuredWeightPerMinute value ∧ ∀ c ∈ cs, c.Roomy) ∧
      ¬Prompt (shared value start) weight := by
  have hdouble := configuredWeightPerMinute_double hvalue
  exact ⟨fun cs => answers_iff hdouble,not_prompt hdouble weight start⟩

theorem default_answers_not_prompt : Answers (shared none 0) [.gate 720 0,.limited 1 (some 120)] ∧
    ¬Prompt (shared none 0) 1 := by
  obtain ⟨hanswers,hprompt⟩ := @answers_iff_and_not_prompt none (fun x hx => by cases hx) 0 1
  refine ⟨(hanswers _).mpr ⟨?_,?_⟩,hprompt⟩
  · norm_num [configuredWeightPerMinute]
  · decide +kernel

/-- The default limiter after a request for all that it has. -/
def drained : RestRateLimiter :=
  { (new f64 720 720 0).refill 0 with
    blockedByExchange := false, tokens := f64 (((new f64 720 720 0).refill 0).tokens-(new f64 720 720 0).charge 720) }

/-- The first wait of a request of weight 1, to the nanosecond. -/
def firstWait : ℚ := 83333333/10^9

/-- The call takes all tokens; the next one is told to wait, and stuck from there on. -/
theorem drained_starves : run after (some (shared none 0)) [.gate 720 0]=some drained ∧
    drained.tryGateAt 1 0=some (.wait firstWait,{ drained.refill 0 with blockedByExchange := false }) ∧
    Stuck 1 firstWait { drained.refill 0 with blockedByExchange := false } := by
  refine ⟨?_,?_,?_⟩
  · have hgate : (new f64 720 720 0).tryGateAt 720 0=some (.ready,drained) := by
      have hopen : (new f64 720 720 0).blockedUntil ≤ 0 := le_rfl
      rw [tryGateAt_open hopen (by norm_num [new]),if_pos (by decide +kernel)]
      rfl
    exact congrArg (Option.map Prod.snd) hgate
  · have hspan : fromSecs ((drained.refill 0).lack (drained.charge 1))=some firstWait := by decide +kernel
    rw [tryGateAt_open (by decide +kernel) (by decide +kernel),if_neg (by decide +kernel),if_neg (by decide +kernel),
      hspan]
    rfl
  · refine ⟨by decide +kernel,by decide +kernel,by decide +kernel,by decide +kernel,?_,by decide +kernel⟩
    exact refill_now rfl rfl (by decide +kernel) (min_le_right _ _)

/-- With the default budget and no tokens, a request of weight 1 is told to wait 83333333 ns and then no time,
for ever; with half a request a minute the first call panics. -/
theorem default_starves :
    (run after (some (shared none 0)) [.gate 720 0]=some drained ∧ drained.blockedUntil ≤ 0 ∧
      answer (some drained) 1 0=some (.wait firstWait) ∧ ∀ n, waits n (some drained) 1 0=none) ∧
    answer (some (shared (some (1/2)) 0)) 1 0=none := by
  obtain ⟨hrun,hgate,hstuck⟩ := drained_starves
  have hanswer : answer (some drained) 1 0=some (.wait firstWait) := congrArg (Option.map Prod.fst) hgate
  have hafter : after (some drained) (.gate 1 0)=some { drained.refill 0 with blockedByExchange := false } :=
    congrArg (Option.map Prod.snd) hgate
  refine ⟨⟨hrun,le_rfl,hanswer,fun n => ?_⟩,?_⟩
  · cases n with
    | zero => rfl
    | succ n =>
      rw [waits,hanswer,hafter]
      dsimp only
      rw [zero_add,hstuck.waits]
      rfl
  · have hbudget : configuredWeightPerMinute (some (1/2))=1/2 := by
      norm_num [configuredWeightPerMinute,Option.filter]
    have hfails : (new f64 (1/2) (1/2) 0).tryGateAt 1 0=none := tryGateAt_fails le_rfl (by norm_num [new])
    rw [shared,hbudget,answer,Option.bind_some,hfails]
    rfl

end TradeGate.RestRateLimiter
