import TradeGate.Bucket.Budget
import TradeGate.Machine.Run
import TradeGate.Model.RateLimit

/-! What the limiter grants, and what it asks to wait: the budget in every span of time, and no panics where a
single request fits. -/
namespace TradeGate.RestRateLimiter
open Machine

/-- What `gate_at` takes from the tokens when it is ready. -/
def charge (l : RestRateLimiter) (weight : ℚ) : ℚ := max 1 (min weight l.capacity)

/-- Arithmetic that keeps zero, the capacity and the order of what is not negative. -/
structure Tame (rounded : ℚ → ℚ) (capacity : ℚ) : Prop where
  mono : ∀ x y, 0 ≤ x → x ≤ y → rounded x ≤ rounded y
  zero : rounded 0=0
  capacity_eq : rounded capacity=capacity

theorem Tame.nonneg {rounded : ℚ → ℚ} {capacity x : ℚ} (h : Tame rounded capacity) (hx : 0 ≤ x) :
    0 ≤ rounded x := h.zero.ge.trans (h.mono 0 x le_rfl hx)

theorem tame_id (capacity : ℚ) : Tame id capacity := ⟨fun _ _ _ h => h,rfl,rfl⟩

/-- The tokens are within the capacity. -/
structure Held (rounded : ℚ → ℚ) (capacity rate : ℚ) (l : RestRateLimiter) : Prop where
  rounded_eq : l.rounded=rounded
  capacity_eq : l.capacity=capacity
  rate_eq : l.refillPerSecond=rate
  nonneg : 0 ≤ l.tokens
  le_capacity : l.tokens ≤ capacity

section
variable {rounded : ℚ → ℚ} {capacity rate : ℚ} {l l' : RestRateLimiter} {weight used now : ℚ} {g : RestGate}

/-- What a call of the gate can do. -/
theorem tryGateAt_cases (h : l.tryGateAt weight now=some (g,l')) :
    (now<l.blockedUntil ∧ l'=l.refill now ∧
      g=if l.blockedByExchange then .banned (l.blockedUntil-now) else .wait (l.blockedUntil-now)) ∨
    (l.blockedUntil ≤ now ∧ 1 ≤ l.capacity ∧ l.charge weight ≤ (l.refill now).tokens ∧ g=.ready ∧
      l'={ l.refill now with
        blockedByExchange := false, tokens := l.rounded ((l.refill now).tokens-l.charge weight) }) ∨
    (l.blockedUntil ≤ now ∧ 1 ≤ l.capacity ∧ (l.refill now).tokens<l.charge weight ∧
      g=.wait (nanos ((l.refill now).lack (l.charge weight))) ∧
      l'={ l.refill now with blockedByExchange := false }) := by
  unfold tryGateAt at h
  dsimp only at h
  by_cases hb : now<(l.refill now).blockedUntil
  · rw [if_pos hb] at h
    cases h
    exact .inl ⟨hb,rfl,rfl⟩
  · rw [if_neg hb] at h
    obtain ⟨w,hw,h⟩ := Option.bind_eq_some_iff.mp h
    obtain ⟨hc,rfl⟩ : 1 ≤ l.capacity ∧ l.charge weight=w := by
      unfold clamp at hw
      split_ifs at hw with hc
      exact ⟨hc,Option.some.inj hw⟩
    by_cases ht : l.charge weight ≤ (l.refill now).tokens
    · rw [if_pos ht] at h
      cases h
      exact .inr (.inl ⟨not_lt.mp hb,hc,ht,rfl,rfl⟩)
    · rw [if_neg ht] at h
      split_ifs at h with hr
      obtain ⟨span,hspan,h⟩ := Option.map_eq_some_iff.mp h
      unfold fromSecs at hspan
      split_ifs at hspan
      cases hspan
      cases h
      exact .inr (.inr ⟨not_lt.mp hb,hc,not_le.mp ht,rfl,rfl⟩)

/-- Where it does not panic, the gate is the one that the requests go through. -/
theorem eq_gateAt (h : l.tryGateAt weight now=some (g,l')) : l.gateAt weight now=(g,l') := by
  unfold gateAt
  dsimp only
  obtain ⟨hb,rfl,rfl⟩ | ⟨hb,-,ht,rfl,rfl⟩ | ⟨hb,-,ht,rfl,rfl⟩ := tryGateAt_cases h
  · exact if_pos hb
  · exact (if_neg (not_lt.mpr hb)).trans (if_pos ht)
  · exact (if_neg (not_lt.mpr hb)).trans (if_neg (not_le.mpr ht))

theorem asSecs_nonneg (ht : Tame l.rounded capacity) {span : ℚ} (h : 0 ≤ span) : 0 ≤ l.asSecs span := by
  have hfloor : (0 : ℚ) ≤ ⌊span⌋ := by exact_mod_cast Int.floor_nonneg.mpr h
  exact ht.nonneg (add_nonneg (ht.nonneg hfloor) (ht.nonneg (Int.fract_nonneg span)))

theorem Held.refill (h : Held rounded capacity rate l) (ht : Tame rounded capacity) (hr : 0 ≤ rate) (now : ℚ) :
    Held rounded capacity rate (l.refill now) := by
  obtain ⟨rfl,rfl,rfl,hpos,hle⟩ := h
  have hflow := mul_nonneg (asSecs_nonneg ht (le_max_right (now-l.updatedAt) 0)) hr
  refine ⟨rfl,rfl,rfl,le_min ?_ (hpos.trans hle),min_le_right _ _⟩
  exact ht.nonneg (add_nonneg hpos (ht.nonneg hflow))

theorem Held.gate (h : Held rounded capacity rate l) (ht : Tame rounded capacity) (hr : 0 ≤ rate)
    (hg : l.tryGateAt weight now=some (g,l')) : Held rounded capacity rate l' := by
  have hrefill := h.refill ht hr now
  obtain ⟨-,rfl,-⟩ | ⟨-,-,hfits,-,rfl⟩ | ⟨-,-,-,-,rfl⟩ := tryGateAt_cases hg
  · exact hrefill
  · have hpos : 1 ≤ l.charge weight := le_max_left _ _
    have hle := hrefill.le_capacity
    have hrest : 0 ≤ (l.refill now).tokens-l.charge weight := sub_nonneg.mpr hfits
    rw [h.rounded_eq]
    refine ⟨hrefill.rounded_eq,hrefill.capacity_eq,hrefill.rate_eq,ht.nonneg hrest,?_⟩
    exact (ht.mono _ capacity hrest (by linarith)).trans ht.capacity_eq.le
  · exact ⟨hrefill.rounded_eq,hrefill.capacity_eq,hrefill.rate_eq,hrefill.nonneg,hrefill.le_capacity⟩

theorem Held.observe (h : Held rounded capacity rate l) (ht : Tame rounded capacity) (hr : 0 ≤ rate) :
    Held rounded capacity rate (l.observeUsedWeight used now) := by
  unfold observeUsedWeight
  split_ifs with hu
  · exact h
  · have hrefill := h.refill ht hr now
    exact ⟨hrefill.rounded_eq,hrefill.capacity_eq,hrefill.rate_eq,le_min hrefill.nonneg (le_max_right _ _),
      (min_le_left _ _).trans hrefill.le_capacity⟩

/-- What a ban that is reported can do. -/
theorem limited_cases {banFor : Option ℚ} (h : after (some l) (.limited now banFor)=some l') :
    l'=l.rateLimitedFor now banFor := by
  change l.tryRateLimitedFor now banFor=some l' at h
  unfold tryRateLimitedFor at h
  split_ifs at h
  exact (Option.some.inj h).symm

/-- Every call keeps the tokens within the capacity. -/
theorem Held.after {c : Call} (h : Held rounded capacity rate l) (ht : Tame rounded capacity) (hr : 0 ≤ rate)
    (hl : after (some l) c=some l') : Held rounded capacity rate l' := by
  cases c with
  | gate weight now =>
    obtain ⟨⟨g,l'⟩,hg,rfl⟩ := Option.map_eq_some_iff.mp hl
    exact h.gate ht hr hg
  | observe used now =>
    cases hl
    exact h.observe ht hr
  | limited now banFor =>
    rw [limited_cases hl]
    exact ⟨h.rounded_eq,h.capacity_eq,h.rate_eq,h.nonneg,h.le_capacity⟩

end

/-! ### The budget -/

/-- A call of the gate that is ready: its instant, what is asked for, and what it takes. -/
def granted (l : Option RestRateLimiter) : Call → Option (ℚ × ℚ × ℚ)
  | .gate weight now =>
    if answer l weight now=some .ready then l.map fun l => (now,weight,l.charge weight) else none
  | _ => none

def grants (l : Option RestRateLimiter) : List Call → List (ℚ × ℚ × ℚ)
  | [] => []
  | c::cs => (granted l c).toList ++ grants (after l c) cs

/-- The call does not come from before the last time that the tokens were counted. -/
def InOrder (l : Option RestRateLimiter) : Call → Prop
  | .limited _ _ => True
  | c => ∀ m ∈ l, m.updatedAt ≤ c.time

instance (l : Option RestRateLimiter) : DecidablePred (InOrder l)
  | .limited _ _ => .isTrue trivial
  | .gate _ now => inferInstanceAs (Decidable (∀ m ∈ l, m.updatedAt ≤ now))
  | .observe _ now => inferInstanceAs (Decidable (∀ m ∈ l, m.updatedAt ≤ now))

section
variable {capacity rate : ℚ} {l l' : RestRateLimiter} {weight used now : ℚ} {c : Call} {cs : List Call}

@[simp] theorem refill_updatedAt (l : RestRateLimiter) (now : ℚ) : (l.refill now).updatedAt=now := rfl

theorem refill_flow (hheld : Held id capacity rate l) (h : l.updatedAt ≤ now) :
    (l.refill now).tokens ≤ l.tokens+rate*(now-l.updatedAt) := by
  have hsecs : l.asSecs (max (now-l.updatedAt) 0)=now-l.updatedAt := by
    rw [asSecs,hheld.rounded_eq,max_eq_left (sub_nonneg.mpr h)]
    exact Int.floor_add_fract _
  have hle : (l.refill now).tokens ≤ l.rounded (l.tokens+l.rounded (l.asSecs (max (now-l.updatedAt) 0)*
    l.refillPerSecond)) := min_le_left _ _
  rwa [hsecs,hheld.rounded_eq,hheld.rate_eq,id,id,mul_comm] at hle

/-- What a call that comes in order takes is covered by what was held and what has flown in. -/
theorem after_flow (h : Held id capacity rate l) (ho : InOrder (some l) c) (ha : after (some l) c=some l') :
    let spent := ((granted (some l) c).map fun g => g.2.2).getD 0
    l.updatedAt ≤ l'.updatedAt ∧ 0 ≤ spent ∧ l'.tokens+spent ≤ l.tokens+rate*(l'.updatedAt-l.updatedAt) ∧
      l'.tokens+spent ≤ capacity ∧ ∀ g ∈ granted (some l) c, g.1=l'.updatedAt := by
  have hheld := h
  obtain ⟨hexact,hcap,hrate,hpos,hle⟩ := h
  cases c with
  | gate weight now =>
    have hu : l.updatedAt ≤ now := ho l rfl
    have hflow := refill_flow hheld hu
    have hfull : (l.refill now).tokens ≤ l.capacity := min_le_right _ _
    rw [hcap] at hfull
    obtain ⟨⟨g,l'⟩,hg,rfl⟩ := Option.map_eq_some_iff.mp ha
    have hans : answer (some l) weight now=some g := by
      rw [answer,Option.bind_some,hg]
      rfl
    dsimp only [granted]
    rw [hans]
    obtain ⟨-,rfl,rfl⟩ | ⟨-,-,-,rfl,rfl⟩ | ⟨-,-,-,rfl,rfl⟩ := tryGateAt_cases hg
    · rw [if_neg (by split_ifs <;> simp)]
      refine ⟨hu,le_rfl,?_,?_,by simp⟩
      · simpa using hflow
      · simpa using hfull
    · have hone : 1 ≤ l.charge weight := le_max_left _ _
      rw [if_pos rfl]
      refine ⟨hu,?_,?_,?_,?_⟩
      · simp only [Option.map_some,Option.getD_some]
        linarith
      · simpa [hexact] using hflow
      · simpa [hexact] using hfull
      · simp [refill]
    · rw [if_neg (by simp)]
      refine ⟨hu,le_rfl,?_,?_,by simp⟩
      · simpa using hflow
      · simpa using hfull
  | observe used now =>
    cases ha
    have hu : l.updatedAt ≤ now := ho l rfl
    have hflow := refill_flow hheld hu
    have hfull : (l.refill now).tokens ≤ l.capacity := min_le_right _ _
    rw [hcap] at hfull
    dsimp only [granted,observeUsedWeight]
    split_ifs with hneg
    · exact ⟨le_rfl,le_rfl,by simp,by simpa using hle,by simp⟩
    · refine ⟨hu,le_rfl,?_,?_,by simp⟩
      · exact (add_zero _).le.trans ((min_le_left _ _).trans hflow)
      · exact (add_zero _).le.trans ((min_le_left _ _).trans hfull)
  | limited now banFor =>
    rw [limited_cases ha]
    exact ⟨le_rfl,le_rfl,by simp [granted,rateLimitedFor],by simpa [granted,rateLimitedFor] using hle,by simp [granted]⟩

theorem grants_none (cs : List Call) : grants none cs=[] := by
  induction cs with
  | nil => rfl
  | cons c cs ih =>
    rw [grants,show after none c=none from rfl,ih]
    cases c <;> rfl

/-- What calls that come in order are granted is spent from a bucket. -/
theorem spends_grants (hr : 0 ≤ rate) (h : Held id capacity rate l) (ho : Throughout after InOrder (some l) cs) :
    Bucket.Spends capacity rate l.tokens l.updatedAt ((grants (some l) cs).map fun g => (g.1,g.2.2)) := by
  induction cs generalizing l with
  | nil => exact .nil _ _
  | cons c cs ih =>
    cases ha : after (some l) c with
    | none =>
      have hgranted : granted (some l) c=none := by
        cases c with
        | gate weight now =>
          have hnone : answer (some l) weight now=none := by simpa [after,answer] using ha
          rw [granted,hnone,if_neg (by simp)]
        | observe used now => rfl
        | limited now banFor => rfl
      rw [grants,hgranted,ha,grants_none]
      exact .nil _ _
    | some l' =>
      obtain ⟨hu,hspent,hflow,hcap,htime⟩ := after_flow h ho.1 ha
      have hheld := h.after (tame_id capacity) hr ha
      have hrest := ih hheld (ha ▸ ho.2)
      rw [grants,ha]
      cases hg : granted (some l) c with
      | none =>
        rw [hg] at hflow
        refine hrest.earlier hu ?_
        simpa using hflow
      | some g =>
        rw [hg] at hspent hflow hcap htime
        rw [Option.toList_some,List.singleton_append,List.map_cons,htime g rfl]
        exact .cons hu hspent hheld.nonneg hflow hcap hrest

theorem held_new {rounded : ℚ → ℚ} {perMinute : ℚ} (hc : 0 ≤ capacity) (start : ℚ) :
    Held rounded capacity (rounded (perMinute/60)) (.new rounded capacity perMinute start) :=
  ⟨rfl,rfl,rfl,hc,le_rfl⟩

theorem after_capacity (ha : after (some l) c=some l') : l'.capacity=l.capacity := by
  cases c with
  | gate weight now =>
    obtain ⟨⟨g,l'⟩,hg,rfl⟩ := Option.map_eq_some_iff.mp ha
    obtain ⟨-,rfl,-⟩ | ⟨-,-,-,-,rfl⟩ | ⟨-,-,-,-,rfl⟩ := tryGateAt_cases hg <;> rfl
  | observe used now =>
    cases ha
    dsimp only [observeUsedWeight]
    split_ifs <;> rfl
  | limited now banFor =>
    rw [limited_cases ha]
    rfl

/-- What was asked for is no more than what was taken, where it fits. -/
theorem weight_le_charge (hfit : ∀ weight now, .gate weight now ∈ cs → weight ≤ l.capacity) :
    ∀ g ∈ grants (some l) cs, g.2.1 ≤ g.2.2 := by
  induction cs generalizing l with
  | nil =>
    rintro g ⟨⟩
  | cons c cs ih =>
    intro g hg
    obtain hg | hg := List.mem_append.mp hg
    · rw [Option.mem_toList] at hg
      cases c with
      | gate weight now =>
        rw [granted] at hg
        split_ifs at hg
        cases hg
        exact (le_min le_rfl (hfit weight now List.mem_cons_self)).trans (le_max_right _ _)
      | observe used now => cases hg
      | limited now banFor => cases hg
    · cases ha : after (some l) c with
      | none =>
        rw [ha,grants_none] at hg
        cases hg
      | some l' =>
        rw [ha] at hg
        refine ih ?_ g hg
        intro weight now hmem
        rw [after_capacity ha]
        exact hfit weight now (List.mem_cons_of_mem _ hmem)

end

/-- The weight of the requests that are let through from `a` to `b`. -/
def grantedWeight (a b : ℚ) (l : Option RestRateLimiter) (cs : List Call) : ℚ :=
  Bucket.total a b ((grants l cs).map fun g => (g.1,g.2.1))

/-- The same, as the limiter counts it. -/
def chargedWeight (a b : ℚ) (l : Option RestRateLimiter) (cs : List Call) : ℚ :=
  Bucket.total a b ((grants l cs).map fun g => (g.1,g.2.2))

/-- When no call comes from before the last count, what is let through in a span of time is within the budget, in
exact arithmetic. -/
theorem budget_run {capacity perMinute start a b : ℚ} {cs : List Call} (hc : 0 ≤ capacity) (hp : 0 ≤ perMinute)
    (hab : a ≤ b) (h : Throughout after InOrder (some (.new id capacity perMinute start)) cs) :
    chargedWeight a b (some (.new id capacity perMinute start)) cs ≤ capacity+perMinute/60*(b-a) ∧
      ((∀ weight now, .gate weight now ∈ cs → weight ≤ capacity) →
        grantedWeight a b (some (.new id capacity perMinute start)) cs ≤ capacity+perMinute/60*(b-a)) := by
  have hr : 0 ≤ perMinute/60 := by positivity
  have hcharged := (spends_grants hr (held_new hc start) h).total_le hr hc hab
  refine ⟨hcharged,fun hfit => le_trans ?_ hcharged⟩
  exact Bucket.total_le_total (weight_le_charge hfit)

/-- Three requests, of which the second has read its clock before the first. -/
def lateClock : List Call := [.gate 720 1,.gate 1 0,.gate 12 1]

/-- Two requests that come in order. -/
theorem budget_run_two : grantedWeight 1 1 (some (.new id 720 720 0)) [.gate 720 1,.gate 12 2] ≤ 720+720/60*(1-1) := by
  refine (budget_run (by norm_num) (by norm_num) le_rfl ?_).2 ?_
  · decide +kernel
  · intro weight now h
    simp only [List.mem_cons,Call.gate.injEq,List.not_mem_nil,or_false] at h
    obtain ⟨rfl,-⟩ | ⟨rfl,-⟩ := h <;> norm_num

/-- Time that was counted is counted again after a call with an older clock. -/
theorem lateClock_over_budget : ¬grantedWeight 1 1 (some (.new id 720 720 0)) lateClock ≤ 720+720/60*(1-1) := by
  decide +kernel

end TradeGate.RestRateLimiter
