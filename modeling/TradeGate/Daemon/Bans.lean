import Mathlib.Data.List.Induction
import TradeGate.Daemon.Budget

/-! A ban that the exchange has given is honoured until its end, whatever else is called. -/
namespace TradeGate.RestRateLimiter
open Machine

/-- One of the calls has brought a ban that has not ended. -/
def InForce (cs : List Call) (now : ℚ) : Prop :=
  ∃ given span, .limited given (some span) ∈ cs ∧ now<given+min (span+1) maxHonoredBan

/-- Closed until some instant, and by the exchange unless it is over by now. -/
def Closed (edge now : ℚ) (l : RestRateLimiter) : Prop :=
  edge ≤ l.blockedUntil ∧ (l.blockedByExchange=true ∨ l.blockedUntil ≤ now)

section
variable {edge now later weight : ℚ} {l l' : RestRateLimiter} {c : Call} {cs : List Call}

theorem Closed.mono (h : Closed edge now l) (hle : now ≤ later) : Closed edge later l :=
  ⟨h.1,h.2.imp_right fun hb => hb.trans hle⟩

/-- A call that does not come before the last one keeps the limiter closed. -/
theorem Closed.after (h : Closed edge now l) (hle : now ≤ c.time) (ha : after (some l) c=some l') :
    Closed edge c.time l' := by
  obtain ⟨hclosed,hflag⟩ := h.mono hle
  cases c with
  | gate weight t =>
    obtain ⟨⟨g,l'⟩,hg,rfl⟩ := Option.map_eq_some_iff.mp ha
    obtain ⟨-,rfl,-⟩ | ⟨hopen,-,-,-,rfl⟩ | ⟨hopen,-,-,-,rfl⟩ := tryGateAt_cases hg
    · exact ⟨hclosed,hflag⟩
    · exact ⟨hclosed,.inr hopen⟩
    · exact ⟨hclosed,.inr hopen⟩
  | observe used t =>
    cases ha
    dsimp only [observeUsedWeight]
    split_ifs <;> exact ⟨hclosed,hflag⟩
  | limited t banFor =>
    rw [limited_cases ha]
    exact ⟨hclosed.trans (le_max_left _ _),.inl rfl⟩

/-- A ban closes the limiter. -/
theorem closed_limited (l : RestRateLimiter) (given span : ℚ) :
    Closed (given+min (span+1) maxHonoredBan) given (l.rateLimitedFor given (some span)) := by
  refine ⟨le_trans ?_ (le_max_right _ _),.inl rfl⟩
  exact add_le_add_right (le_max_right _ _) given

theorem run_none (cs : List Call) : run RestRateLimiter.after none cs=none := by
  induction cs with
  | nil => rfl
  | cons c cs ih => exact ih

theorem Closed.run (h : Closed edge now l) (hsorted : (cs.map Call.time).Pairwise (· ≤ ·))
    (hfrom : ∀ c ∈ cs, now ≤ c.time) (hto : ∀ c ∈ cs, c.time ≤ later) (hle : now ≤ later)
    (hrun : run RestRateLimiter.after (some l) cs=some l') : Closed edge later l' := by
  induction cs generalizing l now with
  | nil =>
    cases hrun
    exact h.mono hle
  | cons c cs ih =>
    rw [List.map_cons,List.pairwise_cons] at hsorted
    obtain ⟨hc,hcs⟩ := List.forall_mem_cons.mp hto
    rw [run_cons] at hrun
    cases ha : RestRateLimiter.after (some l) c with
    | none =>
      rw [ha,run_none] at hrun
      cases hrun
    | some m =>
      rw [ha] at hrun
      refine ih (h.after (hfrom c List.mem_cons_self) ha) hsorted.2 ?_ hcs hc hrun
      intro d hd
      exact hsorted.1 d.time (List.mem_map_of_mem hd)

/-- A ban in force closes the limiter for longer than now. -/
theorem closed_of_inForce {start : Option RestRateLimiter} (hsorted : (cs.map Call.time).Pairwise (· ≤ ·))
    (hto : ∀ c ∈ cs, c.time ≤ now) (hforce : InForce cs now) (hrun : run RestRateLimiter.after start cs=some l) :
    ∃ edge, now<edge ∧ Closed edge now l := by
  obtain ⟨given,span,hmem,hlt⟩ := hforce
  obtain ⟨xs,ys,rfl⟩ := List.append_of_mem hmem
  refine ⟨_,hlt,?_⟩
  rw [List.map_append,List.map_cons,List.pairwise_append,List.pairwise_cons] at hsorted
  obtain ⟨-,⟨hfrom,hsorted⟩,-⟩ := hsorted
  have hgiven : given ≤ now := hto (.limited given (some span)) (by simp)
  rw [run,List.foldl_append,List.foldl_cons] at hrun
  change Machine.run RestRateLimiter.after (RestRateLimiter.after (Machine.run RestRateLimiter.after start xs) _) ys=_ at hrun
  cases hm : Machine.run RestRateLimiter.after start xs with
  | none =>
    rw [hm] at hrun
    exact absurd ((run_none ys).symm.trans hrun) (by simp)
  | some m =>
    rw [hm] at hrun
    cases hl : RestRateLimiter.after (some m) (.limited given (some span)) with
    | none =>
      rw [hl] at hrun
      exact absurd ((run_none ys).symm.trans hrun) (by simp)
    | some m' =>
      rw [hl,limited_cases hl] at hrun
      refine (closed_limited m given span).run hsorted ?_ ?_ hgiven hrun
      · intro c hc
        exact hfrom c.time (List.mem_map_of_mem hc)
      · intro c hc
        exact hto c (by simp [hc])

/-- While a ban is in force the gate says so. -/
theorem answer_of_inForce {start : Option RestRateLimiter} (hsorted : (cs.map Call.time).Pairwise (· ≤ ·))
    (hto : ∀ c ∈ cs, c.time ≤ now) (hforce : InForce cs now) (hrun : run RestRateLimiter.after start cs=some l)
    (weight : ℚ) : 0<l.blockedUntil-now ∧ answer (some l) weight now=some (.banned (l.blockedUntil-now)) := by
  obtain ⟨edge,hlt,hedge,hflag⟩ := closed_of_inForce hsorted hto hforce hrun
  have hblocked : now<l.blockedUntil := hlt.trans_le hedge
  have hexchange : l.blockedByExchange=true := hflag.resolve_right (not_le.mpr hblocked)
  refine ⟨sub_pos.mpr hblocked,?_⟩
  have hgate : l.tryGateAt weight now=_ := if_pos hblocked
  rw [answer,Option.bind_some,hgate,Option.map_some]
  exact congrArg some (if_pos hexchange)

end

namespace Acquiring

section
variable {weight now : ℚ} {l : RestRateLimiter} {s : Acquiring} {es : List AcquireEvent}

/-- The limiter is what the calls have made of it, and they came in order. -/
structure Sound (l : RestRateLimiter) (now : ℚ) (s : Acquiring) : Prop where
  limiter_eq : s.limiter=run RestRateLimiter.after (some l) s.calls
  sorted : (s.calls.map Call.time).Pairwise (· ≤ ·)
  past : ∀ c ∈ s.calls, c.time ≤ now

theorem Sound.mono {later : ℚ} (h : s.Sound l now) (hle : now ≤ later) : s.Sound l later :=
  ⟨h.limiter_eq,h.sorted,fun c hc => (h.past c hc).trans hle⟩

theorem Sound.call {c : Call} (h : s.Sound l now) (hle : now ≤ c.time) : (s.call c).Sound l c.time := by
  obtain ⟨hl,hsorted,hpast⟩ := h.mono hle
  refine ⟨?_,?_,?_⟩
  · dsimp only [Acquiring.call]
    rw [hl,run,run,List.foldl_append]
    rfl
  · dsimp only [Acquiring.call]
    rw [List.map_append,List.pairwise_append]
    refine ⟨hsorted,List.pairwise_singleton _ _,?_⟩
    intro t ht u hu
    obtain ⟨d,hd,rfl⟩ := List.mem_map.mp ht
    obtain rfl := List.mem_singleton.mp hu
    exact hpast d hd
  · intro d hd
    obtain hd | hd := List.mem_append.mp hd
    · exact hpast d hd
    · rw [List.mem_singleton.mp hd]

theorem Sound.ask (h : s.Sound l now) : (s.ask weight now).Sound l now := by
  obtain ⟨hl,hsorted,hpast⟩ := h.call (c := .gate weight now) le_rfl
  exact ⟨hl,hsorted,hpast⟩

theorem Sound.step {e : AcquireEvent} (h : s.Sound l now) (hle : now ≤ e.time) : (s.step weight e).Sound l e.time := by
  cases e with
  | call c => exact h.call hle
  | poll t =>
    have ht := h.mono hle
    dsimp only [Acquiring.step]
    split
    next => exact ht.ask
    next =>
      split_ifs
      · exact ht.ask
      · exact ht
    next => exact ht

/-- While a ban is in force, the gate says so for every weight. -/
theorem Sound.banned (h : s.Sound l now) (hforce : InForce s.calls now) (hl : s.limiter ≠ none) :
    ∃ remaining, 0<remaining ∧ ∀ weight, answer s.limiter weight now=some (.banned remaining) := by
  obtain ⟨m,hm⟩ := Option.ne_none_iff_exists'.mp hl
  have hans := answer_of_inForce h.sorted h.past hforce (h.limiter_eq.symm.trans hm)
  exact ⟨m.blockedUntil-now,(hans 1).1,fun weight => hm ▸ (hans weight).2⟩

theorem run_concat (l : RestRateLimiter) (weight : ℚ) (es : List AcquireEvent) (e : AcquireEvent) :
    run (step weight) (start l) (es ++ [e])=(run (step weight) (start l) es).step weight e := by
  rw [run,run,List.foldl_append]
  rfl

theorem sound_run (hsorted : (es.map AcquireEvent.time).Pairwise (· ≤ ·)) (hpast : ∀ e ∈ es, e.time ≤ now) :
    (run (step weight) (start l) es).Sound l now := by
  induction es using List.reverseRecOn generalizing now with
  | nil => exact ⟨rfl,List.Pairwise.nil,List.forall_mem_nil _⟩
  | append_singleton es e ih =>
    rw [List.map_append,List.pairwise_append] at hsorted
    have hbefore : (run (step weight) (start l) es).Sound l e.time := by
      refine ih hsorted.1 fun d hd => ?_
      exact hsorted.2.2 d.time (List.mem_map_of_mem hd) e.time (by simp)
    rw [run_concat]
    exact (hbefore.step le_rfl).mono (hpast e (by simp))

/-- A sleep begins when no ban is in force, and does not last longer than the limit. -/
def Rested (weight : ℚ) (l : RestRateLimiter) (es : List AcquireEvent) (s : Acquiring) : Prop :=
  ∀ wakeAt, s.waiter=.asleep wakeAt → ∃ es₁ began es₂, es=es₁ ++ .poll began::es₂ ∧
    ¬InForce (run (step weight) (start l) es₁).calls began ∧ wakeAt ≤ began+maxAcquireWait

/-- Who goes to sleep has been told to wait, for no longer than the limit. -/
theorem ask_asleep {wakeAt : ℚ} (h : (s.ask weight now).waiter=.asleep wakeAt) :
    ∃ span, answer s.limiter weight now=some (.wait span) ∧ wakeAt=now+span ∧ span ≤ maxAcquireWait := by
  dsimp only [Acquiring.ask] at h
  cases ha : answer s.limiter weight now with
  | none =>
    rw [ha] at h
    cases h
  | some g =>
    rw [ha,Option.elim_some] at h
    cases g with
    | ready => cases h
    | banned remaining => cases h
    | wait span =>
      rw [Waiter.take] at h
      split_ifs at h with hlong
      exact ⟨span,rfl,(Waiter.asleep.inj h).symm,not_lt.mp hlong⟩

theorem rested_run (hsorted : (es.map AcquireEvent.time).Pairwise (· ≤ ·)) :
    Rested weight l es (run (step weight) (start l) es) := by
  induction es using List.reverseRecOn with
  | nil =>
    rintro wakeAt ⟨⟩
  | append_singleton es e ih =>
    rw [List.map_append,List.pairwise_append] at hsorted
    have hsound : (run (step weight) (start l) es).Sound l e.time := by
      refine sound_run hsorted.1 fun d hd => ?_
      exact hsorted.2.2 d.time (List.mem_map_of_mem hd) e.time (by simp)
    have hkept : Rested weight l (es ++ [e]) (run (step weight) (start l) es) := by
      intro wakeAt hw
      obtain ⟨es₁,began,es₂,hes,hrest⟩ := ih hsorted.1 wakeAt hw
      exact ⟨es₁,began,es₂ ++ [e],by rw [hes]; simp,hrest⟩
    rw [run_concat]
    generalize hs : run (step weight) (start l) es=s at hsound hkept
    cases e with
    | call c => exact hkept
    | poll t =>
      have hask : Rested weight l (es ++ [.poll t]) (s.ask weight t) := by
        intro wakeAt hw
        obtain ⟨span,hans,rfl,hspan⟩ := ask_asleep hw
        refine ⟨es,t,[],rfl,?_,by linarith⟩
        intro hforce
        rw [hs] at hforce
        have hl : s.limiter ≠ none := by
          intro hnone
          rw [hnone] at hans
          cases hans
        obtain ⟨remaining,-,hbanned⟩ := hsound.banned hforce hl
        rw [show answer s.limiter weight t=_ from hbanned weight] at hans
        cases hans
      dsimp only [Acquiring.step]
      split
      next => exact hask
      next =>
        split_ifs
        · exact hask
        · exact hkept
      next => exact hkept

end

/-- While a ban is in force everybody who asks is turned away, unless a call has panicked; nobody goes to sleep
then, and a sleep from before ends within the limit. -/
structure Honoured (weight now : ℚ) (l : RestRateLimiter) (es : List AcquireEvent) (s : Acquiring) : Prop where
  turned_away : InForce s.calls now → s.limiter ≠ none → ∃ remaining, 0<remaining ∧
    (s.ask weight now).waiter=.ended (.error remaining) ∧
      ∀ weight, answer s.limiter weight now=some (.banned remaining)
  rested : Rested weight l es s

/-- Bans are honoured in every run whose clocks do not go back. -/
theorem bans_honoured {l : RestRateLimiter} {weight now : ℚ} {es : List AcquireEvent}
    (hsorted : (es.map AcquireEvent.time).Pairwise (· ≤ ·)) (hpast : ∀ e ∈ es, e.time ≤ now) :
    Honoured weight now l es (run (step weight) (start l) es) := by
  refine ⟨fun hforce hl => ?_,rested_run hsorted⟩
  obtain ⟨remaining,hpos,hbanned⟩ := (sound_run hsorted hpast).banned hforce hl
  refine ⟨remaining,hpos,?_,hbanned⟩
  dsimp only [Acquiring.ask]
  rw [hbanned weight]
  rfl

/-- A request that waits for tokens, and then a ban. -/
def asleepThroughBan : List AcquireEvent := [.call (.gate 720 0),.poll 0,.call (.limited 1 (some 120))]

theorem asleepThroughBan_honoured : Honoured 40 2 (shared none 0) asleepThroughBan
    (run (step 40) (start (shared none 0)) asleepThroughBan) :=
  bans_honoured (by decide +kernel) (by decide +kernel)

/-- One who has gone to sleep is not woken by the ban. -/
theorem sleeps_under_ban :
    (asleepThroughBan.map AcquireEvent.time).Pairwise (· ≤ ·) ∧
      InForce (run (step 40) (start (shared none 0)) asleepThroughBan).calls 2 ∧
      (run (step 40) (start (shared none 0)) asleepThroughBan).waiter=
        .asleep (3333333333/10^9) := by
  refine ⟨by decide +kernel,⟨1,120,?_,?_⟩,?_⟩
  · decide +kernel
  · norm_num [maxHonoredBan]
  · decide +kernel

end Acquiring

end TradeGate.RestRateLimiter
