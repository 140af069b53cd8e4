import Mathlib.Algebra.Order.Field.Rat
import Mathlib.Tactic.Linarith
import TradeGate.Daemon.Calls

/-! Requests against the limiter: what each of them has acquired, and bans. -/
namespace TradeGate
open Machine
namespace Rest

/-- Not known to have failed before the exchange was reached. -/
def Sent.reached (x : Sent) : Bool :=
  match x.outcome with
  | some (.connectFailed _) => false
  | _ => true

/-- It went to the exchange, for the stage and with the weight. -/
def Sent.spends (x : Sent) (key : Stage × ℕ) : Bool :=
  x.managed && x.reached && (x.stage,x.weight)=key

namespace Running

/-- Every request that reached the exchange has an acquisition of its weight of its own. -/
def Metered (r : Running) : Prop :=
  ∀ key, r.sent.countP (·.spends key) ≤ r.acquired.count key

/-- Nothing was sent to the exchange under a ban. -/
def Unbanned (r : Running) : Prop := ∀ x ∈ r.sent, x.managed=true → x.banned=false

/-- What a call has sent and acquired, and what it may still send. -/
structure Provided (q : Stage → Request) (r : Running) : Prop where
  metered : r.Metered
  unbanned : r.Unbanned
  due : ∀ stage, r.place.due=some stage → (q stage).managed=true →
    r.sent.countP (·.spends (stage,(q stage).weight))<r.acquired.count (stage,(q stage).weight)
  under : ∀ stage, r.place.under=some stage → ∃ xs x, r.sent=xs++[x] ∧ x.stage=stage ∧
    x.managed=(q stage).managed ∧ x.weight=(q stage).weight ∧ x.outcome=none

variable {q : Stage → Request} {l : RestRateLimiter} {now : ℚ} {e : Event} {k : ℕ} {r r' : Running}
  {stage : Stage}

theorem Provided.goto (h : r.Provided q) {p : Place} (hd : p.due=none) (hu : p.under=none) :
    (r.goto p).Provided q := by
  refine ⟨h.metered,h.unbanned,fun stage hp => ?_,fun stage hp => ?_⟩
  · rw [Running.goto,hd] at hp
    cases hp
  · rw [Running.goto,hu] at hp
    cases hp

theorem due_next (result : Except BinanceError JsonBody) (synced : Bool) :
    (next stage result synced).due=none := by
  cases stage with
  | first =>
    cases result with
    | ok value => rfl
    | error e =>
      simp only [next]
      split_ifs <;> rfl
  | resync original => cases synced <;> rfl
  | _ => rfl

theorem under_next (result : Except BinanceError JsonBody) (synced : Bool) :
    (next stage result synced).under=none := by
  cases stage with
  | first =>
    cases result with
    | ok value => rfl
    | error e =>
      simp only [next]
      split_ifs <;> rfl
  | resync original => cases synced <;> rfl
  | _ => rfl

/-- What comes of the last request only takes it from those that reached the exchange. -/
theorem Metered.settle (h : r.Metered) {xs : List Sent} {x : Sent} (hsent : r.sent=xs++[x])
    (hx : x.outcome=none) (a : Attempt) : (r.settle a).Metered := by
  intro key
  have hlast : List.countP (·.spends key) [{ x with outcome := some a }] ≤
      List.countP (·.spends key) [x] := by
    simp only [List.countP_singleton,Sent.spends,Sent.reached,hx]
    grind
  calc
    (r.settle a).sent.countP (·.spends key)
        =xs.countP (·.spends key)+List.countP (·.spends key) [{ x with outcome := some a }] := by
      rw [sent_settle hsent,List.countP_append]
    _ ≤ xs.countP (·.spends key)+List.countP (·.spends key) [x] := Nat.add_le_add_left hlast _
    _ = r.sent.countP (·.spends key) := by rw [hsent,List.countP_append]
    _ ≤ r.acquired.count key := h key

theorem Unbanned.settle (h : r.Unbanned) {xs : List Sent} {x : Sent} (hsent : r.sent=xs++[x])
    (a : Attempt) : (r.settle a).Unbanned := by
  intro y hy
  rw [sent_settle hsent] at hy
  obtain hy|hy := List.mem_append.mp hy
  · exact h y (by simp [hsent,hy])
  · rw [List.mem_singleton.mp hy]
    exact h x (by simp [hsent])

/-- An acquisition is not spent on a request that did not reach the exchange. -/
theorem Metered.spare (h : r.Metered) {xs : List Sent} {x : Sent} (hsent : r.sent=xs++[x])
    (hx : x.outcome=none) (hm : x.managed=true) (error : String) :
    (r.settle (.connectFailed error)).sent.countP (·.spends (x.stage,x.weight))<
      r.acquired.count (x.stage,x.weight) := by
  have hspent : List.countP (·.spends (x.stage,x.weight)) [x]=1 := by
    simp [Sent.spends,Sent.reached,hx,hm]
  have hspare : List.countP (·.spends (x.stage,x.weight))
      [{ x with outcome := some (.connectFailed error) }]=0 := by
    simp [Sent.spends,Sent.reached]
  have := h (x.stage,x.weight)
  rw [hsent,List.countP_append,hspent] at this
  rw [sent_settle hsent,List.countP_append,hspare]
  omega

/-- Moves keep to the acquisitions, where a request goes out under no ban and only one that could not
connect is repeated. -/
theorem Provided.move (hm : r.Move q l now e k r')
    (hfree : ∀ stage, r.place.due=some stage → (q stage).managed=true → ¬l.Banned now)
    (hretry : ∀ stage attempt a, r.place=.inFlight stage attempt → (q stage).managed=true →
      (q stage).again attempt=true → e.Retries (q stage) k a → ∃ error, a=.connectFailed error)
    (h : r.Provided q) : r'.Provided q := by
  cases hm with
  | refuse | only | fresh | sync | enter | meter | sleep | drop => exact h.goto rfl rfl
  | turn => exact h.goto (due_next ..) (under_next ..)
  | @free stage hp hf =>
    refine ⟨h.metered,h.unbanned,fun stage' hp' hm' => ?_,fun stage' hp' => by cases hp'⟩
    obtain rfl := Option.some.inj hp'
    rw [hf] at hm'
    cases hm'
  | @acquire stage clockMs hp hb he =>
    refine ⟨fun key => ?_,h.unbanned,fun stage' hp' hm' => ?_,fun stage' hp' => by cases hp'⟩
    · rw [List.count_append]
      exact Nat.le_add_right_of_le (h.metered key)
    · obtain rfl := Option.some.inj hp'
      have := h.metered (stage,(q stage).weight)
      rw [List.count_append,List.count_singleton_self]
      exact Nat.lt_succ_of_le this
  | @send stage hp attempt =>
    refine ⟨fun key => ?_,fun x hx hm' => ?_,fun stage' hp' => (by cases hp'),fun stage' hp' => ?_⟩
    · rw [List.countP_append,List.countP_singleton]
      by_cases hs : Sent.spends ⟨stage,(q stage).managed,(q stage).weight,l.Banned now,none⟩ key
      · have hkey : (q stage).managed=true ∧ (stage,(q stage).weight)=key := by
          simpa [Sent.spends,Sent.reached] using hs
        rw [if_pos hs,← hkey.2]
        exact h.due stage hp hkey.1
      · rw [if_neg hs]
        exact h.metered key
    · obtain hx|hx := List.mem_append.mp hx
      · exact h.unbanned x hx hm'
      · rw [List.mem_singleton.mp hx] at hm' ⊢
        exact decide_eq_false (hfree stage hp hm')
    · obtain rfl := Option.some.inj hp'
      exact ⟨_,_,rfl,rfl,rfl,rfl,rfl⟩
  | @retry stage attempt hp a he hn wakeAt =>
    obtain ⟨xs,x,hsent,hx,hxm,hxw,hxo⟩ := h.under stage (by rw [hp]; rfl)
    refine ⟨h.metered.settle hsent hxo a,h.unbanned.settle hsent a,fun stage' hp' hm' => ?_,
      fun stage' hp' => by cases hp'⟩
    obtain rfl := Option.some.inj hp'
    obtain ⟨error,rfl⟩ := hretry stage attempt a hp hm' hn he
    have := h.metered.spare hsent hxo (hxm.trans hm') error
    rwa [hx,hxw] at this
  | @back stage hp a synced =>
    obtain ⟨xs,x,hsent,hx,hxm,hxw,hxo⟩ := h.under stage hp
    have hs : (r.settle a).Metered ∧ (r.settle a).Unbanned :=
      ⟨h.metered.settle hsent hxo a,h.unbanned.settle hsent a⟩
    refine ⟨hs.1,hs.2,fun stage' hp' => ?_,fun stage' hp' => ?_⟩
    · rw [Running.goto,due_next] at hp'
      cases hp'
    · rw [Running.goto,under_next] at hp'
      cases hp'
  | @head stage hp head =>
    refine ⟨h.metered,h.unbanned,fun stage' hp' => (by cases hp'),fun stage' hp' => ?_⟩
    obtain rfl := Option.some.inj hp'
    exact h.under stage hp

/-- A call becomes due by an acquisition, or by a failure after which it is tried again. -/
theorem Move.due (hm : r.Move q l now e k r') (hp : r'.place.due=some stage)
    (hq : (q stage).managed=true) : (∃ clockMs, e=.poll k clockMs) ∧ ¬l.Banned now ∨
      ∃ attempt a, r.place=.inFlight stage attempt ∧ (q stage).again attempt=true ∧
        e.Retries (q stage) k a := by
  cases hm with
  | @free stage' hp' hf =>
    obtain rfl := Option.some.inj hp
    rw [hf] at hq
    cases hq
  | acquire hp' hb he => exact .inl ⟨⟨_,he⟩,hb⟩
  | @retry stage' attempt hp' a he hn wakeAt =>
    obtain rfl := Option.some.inj hp
    exact .inr ⟨attempt,a,hp',hn,he⟩
  | turn | back =>
    rw [goto,due_next] at hp
    cases hp
  | _ => cases hp

end Running

namespace State

variable (clients : ℕ → Client) (s : State)

/-- Every request that reached the exchange was paid for, and none was sent under a ban. -/
def Respectful : Prop := ∀ r ∈ s.running, r.Metered ∧ r.Unbanned

/-- What call `k` has sent to the exchange, if it has an attempt left. -/
def repeatable (k : ℕ) : Option Request :=
  s.running[k]?.bind fun r =>
    match r.place with
    | .inFlight stage attempt =>
      let q := request clients r stage
      if q.managed ∧ q.again attempt then some q else none
    | _ => none

/-- A call has acquired what it has not yet sent to the exchange. -/
def Awaited : Prop :=
  ∃ r ∈ s.running, ∃ stage ∈ r.place.due, (request clients r stage).managed=true

/-- The exchange limits its callers in the response that call `k` reads. -/
def Limited (k : ℕ) (body : Body) : Prop :=
  ∃ r ∈ s.running[k]?,
    match r.place with
    | .reading stage head =>
      (request clients r stage).managed=true ∧ limits (Head.response head body)
    | _ => False

/-- A request to the exchange is repeated only when it could not connect and there is no ban, and no
ban falls between an acquisition and what it is for. -/
def Spaced : Event → Prop
  | .connectFailed k .. => (s.repeatable clients k).isSome → ¬s.limiter.Banned s.now
  | .sendFailed k _ timedOut request _ =>
    ∀ q ∈ s.repeatable clients k, q.retryable timedOut request=false
  | .body k body .. => s.Limited clients k body → ¬s.Awaited clients
  | _ => True

instance : Decidable (s.Awaited clients) :=
  inferInstanceAs (Decidable (∃ r ∈ s.running, ∃ stage ∈ r.place.due, _=true))

instance (k : ℕ) (body : Body) : Decidable (s.Limited clients k body) :=
  have (r : Running) : Decidable (match r.place with
      | .reading stage head =>
        (request clients r stage).managed=true ∧ limits (Head.response head body)
      | _ => False) :=
    match r.place with
    | .reading _ _ => inferInstanceAs (Decidable (_ ∧ _))
    | .begun | .locking _ | .entering _ | .acquiring _ | .asleep _ _ | .sending _ _ | .resting _ _ _
    | .inFlight _ _ | .returned _ | .dropped => .isFalse id
  inferInstanceAs (Decidable (∃ r ∈ s.running[k]?, _))

instance : DecidablePred (s.Spaced clients)
  | .connectFailed k _ _ =>
    inferInstanceAs (Decidable ((s.repeatable clients k).isSome=true → ¬s.limiter.Banned s.now))
  | .sendFailed k _ timedOut request _ =>
    inferInstanceAs (Decidable (∀ q ∈ s.repeatable clients k, q.retryable timedOut request=false))
  | .body k body _ _ => inferInstanceAs (Decidable (s.Limited clients k body → ¬s.Awaited clients))
  | .begin _ _ | .elapse _ | .poll _ _ | .headers _ _ | .drop _ => .isTrue trivial

variable {clients s} {e : Event} {k : ℕ} {r : Running} {stage : Stage}

theorem not_banned_gateAt {l : RestRateLimiter} (weight : ℚ) {now : ℚ} (h : ¬l.Banned now) :
    ¬(l.gateAt weight now).2.Banned now := by
  unfold RestRateLimiter.gateAt
  dsimp only
  split_ifs
  · exact h
  · exact h
  · rintro ⟨⟨⟩,-⟩
  · rintro ⟨⟨⟩,-⟩

theorem not_banned_observeUsedWeight {l : RestRateLimiter} {used now : ℚ} (h : ¬l.Banned now) :
    ¬(l.observeUsedWeight used now).Banned now := by
  unfold RestRateLimiter.observeUsedWeight
  split_ifs <;> exact h

/-- What an event of a call does to the limiter brings no ban of its own. -/
def Calm (s s' : State) : Prop :=
  s'.now=s.now ∧ (¬s.limiter.Banned s.now → ¬s'.limiter.Banned s.now)

theorem calm_of_eq {s' : State} (hn : s'.now=s.now) (hl : s'.limiter=s.limiter) : s.Calm s' :=
  ⟨hn,by rw [hl]; exact id⟩

@[simp] theorem now_finish (result : Except BinanceError JsonBody) (synced : Bool) (clockMs : ℤ) :
    (s.finish k r stage result synced clockMs).now=s.now := by
  cases stage <;> rfl

@[simp] theorem limiter_finish (result : Except BinanceError JsonBody) (synced : Bool) (clockMs : ℤ) :
    (s.finish k r stage result synced clockMs).limiter=s.limiter := by
  cases stage <;> rfl

theorem calm_acquire (clockMs : ℤ) : s.Calm (s.acquire clients k r stage clockMs) := by
  have hgate : ¬s.limiter.Banned s.now → ¬(s.limiter.gateAt _ s.now).2.Banned s.now :=
    not_banned_gateAt (request clients r stage).weight
  unfold acquire
  dsimp only
  cases hg : s.limiter.gateAt (request clients r stage).weight s.now with
  | mk gate limiter =>
    rw [hg] at hgate
    cases gate with
    | ready => exact ⟨rfl,hgate⟩
    | banned remaining => exact ⟨now_finish ..,by rw [limiter_finish]; exact hgate⟩
    | wait span =>
      dsimp only
      split_ifs
      · exact ⟨now_finish ..,by rw [limiter_finish]; exact hgate⟩
      · exact ⟨rfl,hgate⟩

theorem calm_poll (clockMs : ℤ) : s.Calm (s.poll clients k r clockMs) := by
  unfold poll
  cases r.place with
  | begun =>
    refine calm_of_eq ?_ ?_ <;>
    · dsimp only [startCall]
      split
      · rfl
      · split_ifs <;> rfl
      · split_ifs <;> rfl
  | locking stage =>
    refine calm_of_eq ?_ ?_ <;>
    · dsimp only [lock]
      split_ifs <;> rfl
  | entering stage =>
    refine calm_of_eq ?_ ?_ <;>
    · dsimp only
      split_ifs
      · simp
      · rfl
      · rfl
  | acquiring stage => exact calm_acquire clockMs
  | asleep stage wakeAt =>
    dsimp only
    split_ifs
    · exact calm_acquire clockMs
    · exact calm_of_eq rfl rfl
  | sending stage attempt => exact calm_of_eq rfl rfl
  | resting stage attempt wakeAt =>
    refine calm_of_eq ?_ ?_ <;>
    · dsimp only
      split_ifs <;> rfl
  | _ => exact calm_of_eq rfl rfl

theorem calm_failed (a : Attempt) (retry : Request → Bool) (clockMs : ℤ) :
    s.Calm (s.failed clients k r a retry clockMs) := by
  unfold failed
  cases r.place with
  | inFlight stage attempt =>
    refine calm_of_eq ?_ ?_ <;>
    · dsimp only
      split_ifs
      · rfl
      · simp
  | _ => exact calm_of_eq rfl rfl

theorem calm_headers (head : Head) : s.Calm (s.headers clients k r head) := by
  unfold headers
  cases r.place with
  | inFlight stage attempt =>
    dsimp only
    split
    · split_ifs
      · exact ⟨rfl,not_banned_observeUsedWeight⟩
      · exact calm_of_eq rfl rfl
    · exact calm_of_eq rfl rfl
  | _ => exact calm_of_eq rfl rfl

theorem calm_answered (hr : s.running[k]?=some r) {body : Body} (h : ¬s.Limited clients k body)
    (serverTime : Bool) (clockMs : ℤ) :
    s.Calm (s.answered clients k r body serverTime clockMs) := by
  unfold answered
  cases hp : r.place with
  | reading stage head =>
    have hn : ¬((request clients r stage).managed=true ∧ limits (Head.response head body)) := by
      intro hl
      refine h ⟨r,hr,?_⟩
      rw [hp]
      exact hl
    dsimp only
    rw [if_neg hn]
    exact calm_of_eq (now_finish ..) (limiter_finish ..)
  | _ => exact calm_of_eq rfl rfl

theorem calm_giveUp : s.Calm (s.giveUp k r) := by
  unfold giveUp
  split <;> exact calm_of_eq rfl rfl

/-- A ban comes only with a response that limits. -/
theorem not_banned_step (h : ¬s.limiter.Banned s.now)
    (he : ∀ k body serverTime clockMs, e=.body k body serverTime clockMs →
      ¬s.Limited clients k body) :
    ¬(s.step clients e).limiter.Banned (s.step clients e).now := by
  have hcalm : ∀ {s'}, s.Calm s' → ¬s'.limiter.Banned s'.now := by
    rintro s' ⟨hn,hl⟩
    rw [hn]
    exact hl h
  have hcall : ∀ (k : ℕ) (f : Running → State), (∀ r, s.running[k]?=some r → s.Calm (f r)) →
      ¬((s.running[k]?.map f).getD s).limiter.Banned ((s.running[k]?.map f).getD s).now := by
    intro k f hf
    cases hr : s.running[k]? with
    | none => exact h
    | some r => exact hcalm (hf r hr)
  cases e with
  | begin client call => exact h
  | elapse span =>
    simp only [step]
    split_ifs with hs
    · rintro ⟨hb,hu⟩
      exact h ⟨hb,by dsimp only at hu; linarith⟩
    · exact h
  | poll k clockMs => exact hcall k _ fun _ _ => calm_poll clockMs
  | connectFailed k error clockMs => exact hcall k _ fun _ _ => calm_failed _ _ clockMs
  | sendFailed k error timedOut request clockMs => exact hcall k _ fun _ _ => calm_failed _ _ clockMs
  | headers k head => exact hcall k _ fun _ _ => calm_headers head
  | body k body serverTime clockMs =>
    exact hcall k _ fun _ hr => calm_answered hr (he k body serverTime clockMs rfl) serverTime clockMs
  | drop k => exact hcall k _ fun _ _ => calm_giveUp

/-- Calls have what they need to go on, and none waits to be sent into a ban. -/
structure Sound (clients : ℕ → Client) (s : State) : Prop where
  provided : ∀ r ∈ s.running, r.Provided (request clients r)
  unbanned : s.Awaited clients → ¬s.limiter.Banned s.now

theorem repeatable_eq (hr : s.running[k]?=some r) {attempt : ℕ} (hp : r.place=.inFlight stage attempt)
    (hm : (request clients r stage).managed=true)
    (hn : (request clients r stage).again attempt=true) :
    s.repeatable clients k=some (request clients r stage) := by
  simp [repeatable,hr,hp,hm,hn]

/-- A request to the exchange that is repeated did not connect, and there is no ban. -/
theorem Spaced.repeats (h : s.Spaced clients e) (hr : s.running[k]?=some r) {attempt : ℕ}
    {a : Attempt} (hp : r.place=.inFlight stage attempt) (hm : (request clients r stage).managed=true)
    (hn : (request clients r stage).again attempt=true)
    (he : e.Retries (request clients r stage) k a) :
    (∃ error, a=.connectFailed error) ∧ ¬s.limiter.Banned s.now := by
  have hq := repeatable_eq hr hp hm hn
  cases e with
  | connectFailed j error clockMs =>
    obtain ⟨rfl,rfl⟩ := he
    exact ⟨⟨error,rfl⟩,h (by rw [hq]; rfl)⟩
  | sendFailed j error timedOut request clockMs =>
    obtain ⟨rfl,rfl,hretry⟩ := he
    have := h _ hq
    rw [hretry] at this
    cases this
  | _ => cases he

theorem Sound.step (hs : s.Sound clients) (h : s.Spaced clients e) : (s.step clients e).Sound clients := by
  have hkeep : ¬s.limiter.Banned s.now → (s.Awaited clients ∨
      (∀ k body serverTime clockMs, e ≠ .body k body serverTime clockMs)) →
        ¬(s.step clients e).limiter.Banned (s.step clients e).now := by
    intro hb hor
    refine not_banned_step hb ?_
    rintro k body serverTime clockMs rfl hl
    obtain ha|hne := hor
    · exact h hl ha
    · exact hne k body serverTime clockMs rfl
  have hfree : ∀ {r stage}, r ∈ s.running → r.place.due=some stage →
      (request clients r stage).managed=true → ¬s.limiter.Banned s.now :=
    fun {r stage} hr hd hm => hs.unbanned ⟨r,hr,stage,hd,hm⟩
  constructor
  · refine forall_running_step (P := fun r => r.Provided (request clients r)) e ?_ ?_ hs.provided
    · intro client call
      refine ⟨fun key => Nat.zero_le _,?_,?_,?_⟩
      · rintro x ⟨⟩
      · rintro stage ⟨⟩
      · rintro stage ⟨⟩
    · intro k r r' hr hm hprov
      rw [hm.request]
      refine .move hm (fun stage => hfree (List.mem_of_getElem? hr)) ?_ hprov
      intro stage attempt a hp hq hn he
      exact (h.repeats hr hp hq hn he).1
  · rintro ⟨r,hr,stage,hd,hq⟩
    have hdue : ∀ r ∈ (s.step clients e).running, r.place.due=some stage →
        (request clients r stage).managed=true →
          ¬(s.step clients e).limiter.Banned (s.step clients e).now := by
      refine forall_running_step e ?_ ?_ ?_
      · rintro client call ⟨⟩
      · intro k r r' hr hm _ hd hq
        rw [hm.request] at hq
        obtain ⟨⟨clockMs,rfl⟩,hb⟩|⟨attempt,a,hp,hn,he⟩ := hm.due hd hq
        · exact hkeep hb (.inr (by rintro _ _ _ _ ⟨⟩))
        · refine hkeep (h.repeats hr hp hq hn he).2 (.inr ?_)
          rintro j body serverTime clockMs rfl
          exact he
      · intro r hr hd hq
        exact hkeep (hfree hr hd hq) (.inl ⟨r,hr,stage,hd,hq⟩)
    exact hdue r hr hd hq

theorem Sound.respectful (h : s.Sound clients) : s.Respectful :=
  fun r hr => ⟨(h.provided r hr).metered,(h.provided r hr).unbanned⟩

/-- Where requests are repeated only when they could not connect, and no ban falls between an
acquisition and what it is for, every request is paid for and none is sent under a ban. -/
theorem respectful_run {now : ℚ} {limiter : RestRateLimiter} {clocks : ℕ → ServerTime}
    {es : List Event}
    (h : Throughout (State.step clients) (State.Spaced clients) (idle now limiter clocks) es) :
    (run (State.step clients) (idle now limiter clocks) es).Respectful := by
  have hstart : Sound clients (idle now limiter clocks) := by
    constructor
    · rintro r ⟨⟩
    · rintro ⟨r,⟨⟩,-⟩
  exact (run_invariant (fun _ _ hs hsp => hs.step hsp) hstart h).respectful

def tickerUrl : Url := ⟨some "fapi.binance.com","/fapi/v1/ticker/price",[("symbol","BTCUSDT")]⟩

/-- A read that could not connect the first time, and a read that is turned away by the ban it brings. -/
def reads : List Event :=
  [.begin 0 (.publicGet (some tickerUrl))]++.replicate 4 (.poll 0 0)++
    [.connectFailed 0 "reset" 0,.elapse (1/5),.poll 0 0,.headers 0 ⟨429,"Too Many Requests",none,some "60"⟩,
      .body 0 .blank false 0,.begin 0 (.publicGet (some tickerUrl))]++.replicate 4 (.poll 1 0)

theorem reads_respectful :
    (run (State.step fun _ => mainClient) (idle 0 (.new id 720 720 0) fun _ => ⟨0,none⟩) reads).Respectful := by
  have hspaced : Throughout (State.step fun _ => mainClient) (State.Spaced fun _ => mainClient)
      (idle 0 (.new id 720 720 0) fun _ => ⟨0,none⟩) reads := by decide +kernel
  exact respectful_run hspaced

/-- A read that times out is sent again on the acquisition of the first. -/
def timedOut : List Event :=
  [.begin 0 (.publicGet (some tickerUrl))]++.replicate 4 (.poll 0 0)++
    [.sendFailed 0 "timeout" true true 0,.elapse (1/5),.poll 0 0]

/-- A read rests after it could not connect, while another one brings a ban. -/
def restsThroughBan : List Event :=
  [.begin 0 (.publicGet (some tickerUrl)),.begin 0 (.publicGet (some tickerUrl))]++.replicate 4 (.poll 0 0)++
    .replicate 4 (.poll 1 0)++[.connectFailed 0 "reset" 0,
      .headers 1 ⟨429,"Too Many Requests",none,some "60"⟩,.body 1 .blank false 0,.elapse (1/5),.poll 0 0]

/-- A repeated read is not paid for, and may be sent under a ban. -/
theorem repeated_read_disrespectful :
    (¬∀ (clients : ℕ → Client) (now : ℚ) (limiter : RestRateLimiter) (clocks : ℕ → ServerTime)
      (es : List Event), ∀ r ∈ (run (State.step clients) (idle now limiter clocks) es).running, r.Metered) ∧
    ¬∀ (clients : ℕ → Client) (now : ℚ) (limiter : RestRateLimiter) (clocks : ℕ → ServerTime)
      (es : List Event), ∀ r ∈ (run (State.step clients) (idle now limiter clocks) es).running, r.Unbanned := by
  constructor
  · intro h
    have hspent : ∃ r ∈ (run (State.step fun _ => mainClient)
        (idle 0 (.new id 720 720 0) fun _ => ⟨0,none⟩) timedOut).running,
          r.acquired.count (.only,1)<r.sent.countP (·.spends (.only,1)) := by decide +kernel
    obtain ⟨r,hr,hlt⟩ := hspent
    exact Nat.not_le_of_lt hlt (h _ _ _ _ timedOut r hr (.only,1))
  · intro h
    have hbanned : ∃ r ∈ (run (State.step fun _ => mainClient)
        (idle 0 (.new id 720 720 0) fun _ => ⟨0,none⟩) restsThroughBan).running,
          ∃ x ∈ r.sent, x.managed=true ∧ x.banned=true := by decide +kernel
    obtain ⟨r,hr,x,hx,hm,hb⟩ := hbanned
    rw [h _ _ _ _ restsThroughBan r hr x hx hm] at hb
    cases hb

end State
end Rest
end TradeGate
