import Mathlib.Data.List.Basic
import Mathlib.Tactic.Linarith
import TradeGate.Model.AgentAccount

/-! Accounts served after a write. -/
namespace TradeGate.AgentMcpBackend
open Machine

namespace Reads

variable {ttls : Ttls} {s : Reads} {e : Event}

/-- The run was started after every write that has returned. -/
def Newest (s : Reads) (run : ℕ) : Prop := ∀ w ∈ s.returned, w<run

/-- Every call is served by a run that was started after the writes that had returned before it. -/
def UpToDate (s : Reads) : Prop := ∀ c ∈ s.calls, ∀ w ∈ s.returned, w<c.calledAt → w<c.run

/-- No write returns while the shared read is going on, `reducePosition` finds no position only where
there is no view, and `netCheck` brings in no account whose read began before a write returned. -/
def Quiet (s : Reads) : Event → Prop
  | .wrote => 0<s.writing → s.accountInFlight=none
  | .reduceRead found =>
    0<s.reducing → found=false → s.accountInFlight=none ∧ s.accountCache=none
  | .read k _ => ∀ r ∈ s.reading[k]?, r.shared=false → s.Newest r.startedAt
  | _ => True

instance (s : Reads) (run : ℕ) : Decidable (s.Newest run) := inferInstanceAs (Decidable (∀ w ∈ _, _))

instance (s : Reads) : DecidablePred s.Quiet
  | .wrote => inferInstanceAs (Decidable (0<s.writing → s.accountInFlight=none))
  | .read k _ => inferInstanceAs (Decidable (∀ r ∈ s.reading[k]?, _ → _))
  | .reduceRead found =>
    inferInstanceAs (Decidable (0<s.reducing → found=false → s.accountInFlight=none ∧ s.accountCache=none))
  | .account _ _ | .netCheck | .readFailed _ | .settled | .write | .reduce _ _ | .reduceFailed | .stop =>
    .isTrue trivial

/-- What has happened is before now, and a shared read that goes on is the one that is joined. -/
structure Timed (s : Reads) : Prop where
  returned : ∀ w ∈ s.returned, w<s.clock
  calls : ∀ c ∈ s.calls, c.calledAt<s.clock
  reading : ∀ r ∈ s.reading, r.startedAt<s.clock
  cache : ∀ c ∈ s.accountCache, c.run<s.clock
  flight : ∀ run ∈ s.accountInFlight, run<s.clock

/-- All that a call may be served from is newer than the writes. -/
structure Fresh (s : Reads) : Prop where
  timed : s.Timed
  shared : ∀ r ∈ s.reading, r.shared=true → s.accountInFlight=some r.startedAt
  cache : ∀ c ∈ s.accountCache, s.Newest c.run
  flight : ∀ run ∈ s.accountInFlight, s.Newest run
  upToDate : s.UpToDate

/-- An event adds nothing but what happens at its moment. -/
structure Within (s s' : Reads) : Prop where
  returned : ∀ w ∈ s'.returned, w ∈ s.returned ∨ w=s.clock
  calls : ∀ c ∈ s'.calls, c ∈ s.calls ∨ c.calledAt=s.clock
  reading : ∀ r ∈ s'.reading, r ∈ s.reading ∨ r.startedAt=s.clock
  cache : ∀ c ∈ s'.accountCache, c ∈ s.accountCache ∨ ∃ r ∈ s.reading, r.startedAt=c.run
  flight : ∀ run ∈ s'.accountInFlight, run ∈ s.accountInFlight ∨ run=s.clock

theorem Within.refl (s : Reads) : Within s s :=
  ⟨fun _ => .inl,fun _ => .inl,fun _ => .inl,fun _ => .inl,fun _ => .inl⟩

theorem Within.serve {s' : Reads} (h : Within s s') (hclock : s'.clock=s.clock) (run : ℕ) :
    Within s (s'.serve run) := by
  refine ⟨h.returned,fun c hc => ?_,h.reading,h.cache,h.flight⟩
  rw [Reads.serve,List.mem_append,List.mem_singleton] at hc
  rcases hc with hc|rfl
  · exact h.calls c hc
  · exact .inr hclock

theorem Within.accountInner (s : Reads) (shared : Bool) : Within s (s.accountInner shared) := by
  refine ⟨fun _ => .inl,fun _ => .inl,fun r hr => ?_,fun _ => .inl,fun _ => .inl⟩
  rw [Reads.accountInner,List.mem_append,List.mem_singleton] at hr
  rcases hr with hr|rfl
  · exact .inl hr
  · exact .inr rfl

theorem Within.account (s : Reads) (now : ℚ) (idle : Bool) : Within s (s.account ttls now idle) := by
  unfold Reads.account
  split
  · exact (Within.refl s).serve rfl _
  · exact (Within.refl s).serve rfl _
  · have h := Within.accountInner s true
    have hnew : Within s { s.accountInner true with accountInFlight := some s.clock } :=
      ⟨h.returned,h.calls,h.reading,h.cache,fun _ hrun => .inr (Option.mem_some_iff.mp hrun).symm⟩
    exact hnew.serve rfl _

theorem Within.occur (s : Reads) (e : Event) : Within s (s.occur ttls e) := by
  have hself := Within.refl s
  cases e with
  | account now idle => exact .account s now idle
  | netCheck => exact .accountInner s false
  | read k now =>
    simp only [Reads.occur]
    split
    · next r hr =>
      refine ⟨hself.returned,hself.calls,fun r hr => .inl (List.mem_of_mem_eraseIdx hr),fun c hc => ?_,
        hself.flight⟩
      obtain rfl := Option.mem_some_iff.mp hc
      exact .inr ⟨r,List.mem_of_getElem? hr,rfl⟩
    · exact hself
  | readFailed k =>
    exact ⟨hself.returned,hself.calls,fun r hr => .inl (List.mem_of_mem_eraseIdx hr),hself.cache,
      hself.flight⟩
  | settled =>
    simp only [Reads.occur]
    split_ifs
    · exact hself
    · refine ⟨hself.returned,hself.calls,hself.reading,hself.cache,fun run hrun => ?_⟩
      cases hrun
  | write => exact ⟨hself.returned,hself.calls,hself.reading,hself.cache,hself.flight⟩
  | wrote =>
    simp only [Reads.occur]
    split_ifs
    · exact hself
    · refine ⟨fun w hw => ?_,hself.calls,hself.reading,by rintro _ ⟨⟩,hself.flight⟩
      simpa using hw
  | reduce now idle =>
    have h : Within s (s.account ttls now idle) := .account s now idle
    exact ⟨h.returned,h.calls,h.reading,h.cache,h.flight⟩
  | reduceRead found =>
    simp only [Reads.occur]
    split_ifs
    · exact hself
    · exact ⟨hself.returned,hself.calls,hself.reading,hself.cache,hself.flight⟩
    · refine ⟨fun w hw => ?_,hself.calls,hself.reading,hself.cache,hself.flight⟩
      simpa using hw
  | reduceFailed => exact ⟨hself.returned,hself.calls,hself.reading,hself.cache,hself.flight⟩
  | stop => exact ⟨hself.returned,hself.calls,hself.reading,by rintro _ ⟨⟩,hself.flight⟩

theorem Timed.step (h : s.Timed) (e : Event) : (s.step ttls e).Timed := by
  have hw : Within s (s.occur ttls e) := .occur s e
  have hclock : (s.step ttls e).clock=s.clock+1 := rfl
  constructor
  · intro w hmem
    rcases hw.returned w hmem with hmem|rfl
    · exact Nat.lt_succ_of_lt (h.returned w hmem)
    · exact Nat.lt_succ_self _
  · intro c hmem
    rcases hw.calls c hmem with hmem|hat
    · exact Nat.lt_succ_of_lt (h.calls c hmem)
    · omega
  · intro r hmem
    rcases hw.reading r hmem with hmem|hat
    · exact Nat.lt_succ_of_lt (h.reading r hmem)
    · omega
  · intro c hmem
    rcases hw.cache c hmem with hmem|⟨r,hr,hat⟩
    · exact Nat.lt_succ_of_lt (h.cache c hmem)
    · exact Nat.lt_succ_of_lt (hat ▸ h.reading r hr)
  · intro run hmem
    rcases hw.flight run hmem with hmem|rfl
    · exact Nat.lt_succ_of_lt (h.flight run hmem)
    · exact Nat.lt_succ_self _

/-- A run that starts now is newer than the writes. -/
theorem Timed.newest (h : s.Timed) : s.Newest s.clock := h.returned

/-- Where no write returns, it is enough that what is new is newer than the writes. -/
theorem Fresh.next (h : s.Fresh) {s' : Reads} (ht : Timed { s' with clock := s.clock+1 })
    (hret : s'.returned=s.returned)
    (hshared : ∀ r ∈ s'.reading, r.shared=true → s'.accountInFlight=some r.startedAt)
    (hcache : ∀ c ∈ s'.accountCache, s.Newest c.run)
    (hflight : ∀ run ∈ s'.accountInFlight, s.Newest run)
    (hcalls : ∀ c ∈ s'.calls, c ∈ s.calls ∨ s.Newest c.run) :
    Fresh { s' with clock := s.clock+1 } := by
  refine ⟨ht,hshared,fun c hc => ?_,fun run hrun => ?_,fun c hc w hw hlt => ?_⟩
  · simpa only [Newest,hret] using hcache c hc
  · simpa only [Newest,hret] using hflight run hrun
  · replace hw : w ∈ s.returned := hret ▸ hw
    rcases hcalls c hc with hold|hnew
    · exact h.upToDate c hold w hw hlt
    · exact hnew w hw

theorem mem_calls_serve {s : Reads} {run : ℕ} {c : AccountCall} (hc : c ∈ (s.serve run).calls) :
    c ∈ s.calls ∨ c.run=run := by
  rw [Reads.serve,List.mem_append,List.mem_singleton] at hc
  rcases hc with hc|rfl
  · exact .inl hc
  · exact .inr rfl

theorem Fresh.account (h : s.Fresh) (now : ℚ) (idle : Bool) :
    (s.step ttls (.account now idle)).Fresh := by
  have ht : (s.step ttls (.account now idle)).Timed := h.timed.step _
  simp only [step,occur,Reads.account] at ht ⊢
  cases hc : s.cached ttls now idle with
  | some c =>
    have hin : c ∈ s.accountCache := (Option.filter_eq_some_iff.mp hc).1
    rw [hc] at ht
    refine h.next ht rfl h.shared h.cache h.flight fun d hd => ?_
    rcases mem_calls_serve hd with hd|hrun
    · exact .inl hd
    · exact .inr (hrun ▸ h.cache c hin)
  | none =>
    rw [hc] at ht
    cases hf : s.accountInFlight with
    | some run =>
      rw [hf] at ht
      refine h.next ht rfl h.shared h.cache h.flight fun d hd => ?_
      rcases mem_calls_serve hd with hd|hrun
      · exact .inl hd
      · exact .inr (hrun ▸ h.flight run hf)
    | none =>
      rw [hf] at ht
      refine h.next ht rfl (fun r hr hs => ?_) h.cache (fun run hrun => ?_) fun d hd => ?_
      · have hr' : r ∈ s.reading ∨ r=⟨s.clock,true⟩ := by simpa [serve,accountInner] using hr
        rcases hr' with hr|rfl
        · rw [h.shared r hr hs] at hf
          cases hf
        · rfl
      · obtain rfl := Option.mem_some_iff.mp hrun
        exact h.timed.newest
      · rcases mem_calls_serve hd with hd|hrun
        · exact .inl hd
        · exact .inr (hrun ▸ h.timed.newest)

theorem Fresh.reduce (h : s.Fresh) (now : ℚ) (idle : Bool) :
    (s.step ttls (.reduce now idle)).Fresh := by
  have ha : (s.step ttls (.account now idle)).Fresh := h.account now idle
  exact ⟨h.timed.step _,ha.shared,ha.cache,ha.flight,ha.upToDate⟩

/-- A write returns where there is nothing older to be served. -/
theorem Fresh.return_ (h : s.Fresh) {s' : Reads} (ht : Timed { s' with clock := s.clock+1 })
    (hret : s'.returned=s.returned++[s.clock]) (hcalls : s'.calls=s.calls)
    (hshared : ∀ r ∈ s'.reading, r.shared=true → s'.accountInFlight=some r.startedAt)
    (hcache : s'.accountCache=none) (hflight : s'.accountInFlight=none) :
    Fresh { s' with clock := s.clock+1 } := by
  refine ⟨ht,hshared,fun c hc => ?_,fun run hrun => ?_,fun c hc w hmem hlt => ?_⟩
  · change c ∈ s'.accountCache at hc
    rw [hcache] at hc
    cases hc
  · change run ∈ s'.accountInFlight at hrun
    rw [hflight] at hrun
    cases hrun
  · replace hc : c ∈ s.calls := hcalls ▸ hc
    replace hmem : w ∈ s.returned++[s.clock] := hret ▸ hmem
    rcases List.mem_append.mp hmem with hmem|hmem
    · exact h.upToDate c hc w hmem hlt
    · have hlate := h.timed.calls c hc
      have := List.mem_singleton.mp hmem
      omega

theorem Fresh.step (h : s.Fresh) (hq : s.Quiet e) : (s.step ttls e).Fresh := by
  have ht : (s.step ttls e).Timed := h.timed.step e
  cases e with
  | account now idle => exact h.account now idle
  | netCheck =>
    refine h.next ht rfl (fun r hr hs => ?_) h.cache h.flight fun _ => .inl
    have hr' : r ∈ s.reading ∨ r=⟨s.clock,false⟩ := by simpa [occur,accountInner] using hr
    rcases hr' with hr|rfl
    · exact h.shared r hr hs
    · cases hs
  | read k now =>
    simp only [Reads.step,occur] at ht ⊢
    split
    · next r hr =>
      have hmem := List.mem_of_getElem? hr
      refine h.next (by simpa only [hr] using ht) rfl
        (fun r hr => h.shared r (List.mem_of_mem_eraseIdx hr)) (fun c hc => ?_) h.flight fun _ => .inl
      obtain rfl := Option.mem_some_iff.mp hc
      cases hs : r.shared with
      | false => exact hq r hr hs
      | true => exact h.flight _ (h.shared r hmem hs)
    · next hnone => exact h.next (by simpa only [hnone] using ht) rfl h.shared h.cache h.flight fun _ => .inl
  | readFailed k =>
    exact h.next ht rfl (fun r hr => h.shared r (List.mem_of_mem_eraseIdx hr)) h.cache h.flight
      fun _ => .inl
  | settled =>
    simp only [Reads.step,occur] at ht ⊢
    split_ifs at ht ⊢ with hany
    · exact h.next ht rfl h.shared h.cache h.flight fun _ => .inl
    · refine h.next ht rfl (fun r hr hs => ?_) h.cache (by rintro _ ⟨⟩) fun _ => .inl
      exact absurd (List.any_eq_true.mpr ⟨r,hr,hs⟩) hany
  | write => exact h.next ht rfl h.shared h.cache h.flight fun _ => .inl
  | wrote =>
    simp only [Reads.step,occur] at ht ⊢
    split_ifs at ht ⊢ with hw
    · exact h.next ht rfl h.shared h.cache h.flight fun _ => .inl
    · exact h.return_ ht rfl rfl h.shared rfl (hq (Nat.pos_of_ne_zero hw))
  | reduce now idle => exact h.reduce now idle
  | reduceRead found =>
    simp only [Reads.step,occur] at ht ⊢
    split_ifs at ht ⊢ with hr hf
    · exact h.next ht rfl h.shared h.cache h.flight fun _ => .inl
    · exact h.next ht rfl h.shared h.cache h.flight fun _ => .inl
    · obtain ⟨hflight,hcache⟩ := hq (Nat.pos_of_ne_zero hr) (Bool.eq_false_iff.mpr hf)
      exact h.return_ ht rfl rfl h.shared hcache hflight
  | reduceFailed => exact h.next ht rfl h.shared h.cache h.flight fun _ => .inl
  | stop => exact h.next ht rfl h.shared (by rintro _ ⟨⟩) h.flight fun _ => .inl

/-- Every call until now, and one that is made now, is served by a run that was started after the
writes that had returned before it. -/
def Answers (ttls : Ttls) (s : Reads) : Prop := ∀ now idle, (s.step ttls (.account now idle)).UpToDate

theorem account_joins {now : ℚ} {idle : Bool} {run : ℕ} (hc : s.accountCache=none)
    (hf : s.accountInFlight=some run) : s.account ttls now idle=s.serve run := by
  simp [account,cached,hc,hf]

theorem account_cached {now : ℚ} {c : CachedView} (hc : s.accountCache=some c)
    (hage : now-c.cachedAt<ttls.accountTtlMs) : s.account ttls now false=s.serve c.run := by
  have hcached : s.cached ttls now false=some c := by
    rw [cached,hc,Option.filter_eq_some_iff]
    exact ⟨rfl,decide_eq_true hage⟩
  simp only [account,hcached]

/-- A call that is served by a run is served by a new one. -/
theorem Answers.newest (h : s.Answers ttls) (now : ℚ) (idle : Bool) {run : ℕ}
    (hserve : s.account ttls now idle=s.serve run) {w : ℕ} (hw : w ∈ s.returned) (hlt : w<s.clock) :
    w<run := by
  have hup := h now idle
  simp only [step,occur,hserve] at hup
  exact hup ⟨s.clock,run⟩ (List.mem_append_right _ (List.mem_singleton.mpr rfl)) w hw hlt

theorem quiet_of_answers (h : s.Timed) (ha : (s.step ttls e).Answers ttls) : s.Quiet e := by
  cases e with
  | wrote =>
    intro hpos
    cases hf : s.accountInFlight with
    | none => rfl
    | some run =>
      have hw : s.writing ≠ 0 := by omega
      simp only [step,occur,if_neg hw] at ha
      have hlt : s.clock<run := ha.newest 0 false (account_joins rfl hf)
        (List.mem_append_right _ (List.mem_singleton.mpr rfl)) (Nat.lt_succ_self _)
      have := h.flight run hf
      omega
  | reduceRead found =>
    rintro hpos rfl
    have hr : s.reducing ≠ 0 := by omega
    simp only [step,occur,if_neg hr,Bool.false_eq_true,if_false] at ha
    have hnone : s.accountCache=none := by
      cases hc : s.accountCache with
      | none => rfl
      | some c =>
        -- an early enough reading of the clock finds the view in time
        have hlt : s.clock<c.run := ha.newest (c.cachedAt+ttls.accountTtlMs-1) false
          (account_cached hc (by linarith)) (List.mem_append_right _ (List.mem_singleton.mpr rfl))
          (Nat.lt_succ_self _)
        have := h.cache c hc
        omega
    refine ⟨?_,hnone⟩
    cases hf : s.accountInFlight with
    | none => rfl
    | some run =>
      have hlt : s.clock<run := ha.newest 0 false (account_joins hnone hf)
        (List.mem_append_right _ (List.mem_singleton.mpr rfl)) (Nat.lt_succ_self _)
      have := h.flight run hf
      omega
  | read k now =>
    intro r hr _ w hw
    simp only [step,occur,Option.mem_def.mp hr] at ha
    refine ha.newest (now+ttls.accountTtlMs-1) _ (account_cached rfl ?_) hw ?_
    · linarith
    · exact Nat.lt_succ_of_lt (h.returned w hw)
  | _ => trivial

/-- In every run, the calls of `account()` are served by runs that were started after the writes that
had returned before them, exactly as long as no write returns while the shared read is going on,
`reducePosition` finds no position only where there is no view, and `netCheck` brings in no read that began
before a write returned. -/
theorem newest_account_iff_quiet (ttls : Ttls) (es : List Event) :
    Throughout (step ttls) Quiet {} es ↔
      Throughout (step ttls) (fun s e => (s.step ttls e).Answers ttls) {} es := by
  constructor
  · refine throughout_of_invariant (I := Fresh) (fun _ _ h hq => h.step hq) (fun _ _ h hq => ?_) ?_
    · exact fun now idle => ((h.step hq).account now idle).upToDate
    · exact ⟨⟨nofun,nofun,nofun,nofun,nofun⟩,nofun,nofun,nofun,nofun⟩
  · refine throughout_of_invariant (I := Timed) (fun _ e h _ => h.step e)
      (fun _ _ h ha => quiet_of_answers h ha) ⟨nofun,nofun,nofun,nofun,nofun⟩

/-- A read goes on while an order is placed; the call after the order returned joins it. -/
theorem stale_read_joined : ¬∀ (ttls : Ttls) (es : List Event), (run (step ttls) {} es).UpToDate := by
  intro hall
  have hlt := hall {} [.account 0 false,.write,.wrote,.account 0 false] ⟨3,0⟩ (by decide) 2 (by decide)
    (by decide)
  exact absurd hlt (by decide)

end Reads
end TradeGate.AgentMcpBackend
