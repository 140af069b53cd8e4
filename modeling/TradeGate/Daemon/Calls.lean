import Mathlib.Data.List.Basic
import TradeGate.Model.RestClient

/-! What one event can do to a call of the REST client. -/
namespace TradeGate
namespace Rest

namespace Place

/-- The stage whose request has not been sent since it was due. -/
def waiting : Place → Option Stage
  | .locking stage | .entering stage | .acquiring stage | .asleep stage _ | .sending stage _
  | .resting stage _ _ => some stage
  | _ => none

/-- The stage whose request is past the limiter and is the next to be sent. -/
def due : Place → Option Stage
  | .sending stage _ | .resting stage _ _ => some stage
  | _ => none

/-- The stage whose request has been sent and has not come back. -/
def under : Place → Option Stage
  | .inFlight stage _ | .reading stage _ => some stage
  | _ => none

theorem due_waiting {p : Place} {stage : Stage} (h : p.due=some stage) : p.waiting=some stage := by
  cases p <;> simp_all [due,waiting]

end Place

/-- The event is a failure of call `k` after which its request is sent once more. -/
def Event.Retries (q : Request) (k : ℕ) (a : Attempt) : Event → Prop
  | .connectFailed j error _ => j=k ∧ a=.connectFailed error
  | .sendFailed j error timedOut request _ =>
    j=k ∧ a=.sendFailed error timedOut ∧ q.retryable timedOut request=true
  | _ => False

/-- What an event does to call `k`: `q` is what the call hands to `execute`, `l` and `now` are the
limiter and the moment that the event finds. -/
inductive Running.Move (q : Stage → Request) (l : RestRateLimiter) (now : ℚ) (e : Event) (k : ℕ)
    (r : Running) : Running → Prop
  | refuse (error : BinanceError) (h : r.place=.begun) :
      Move q l now e k r (r.goto (.returned (.error error)))
  | only (h : r.place=.begun) : Move q l now e k r (r.goto (.entering .only))
  | fresh (h : r.place=.begun ∨ r.place=.locking .ensureTime) :
      Move q l now e k r (r.goto (.entering .first))
  | sync (h : r.place=.begun) : Move q l now e k r (r.goto (.locking .ensureTime))
  | enter {stage : Stage} (h : r.place=.locking stage) : Move q l now e k r (r.goto (.entering stage))
  | meter {stage : Stage} (h : r.place=.entering stage) : Move q l now e k r (r.goto (.acquiring stage))
  | free {stage : Stage} (h : r.place=.entering stage) (hm : (q stage).managed=false) :
      Move q l now e k r (r.goto (.sending stage 0))
  | turn {stage : Stage} (h : r.place.waiting=some stage) (error : BinanceError)
      (hk : error.kind ≠ .clockSkew) : Move q l now e k r (r.goto (next stage (.error error) false))
  | acquire {stage : Stage} {clockMs : ℤ} (h : r.place.waiting=some stage) (hb : ¬l.Banned now)
      (he : e=.poll k clockMs) :
      Move q l now e k r { r with place := .sending stage 0, acquired := r.acquired++[(stage,(q stage).weight)] }
  | sleep {stage : Stage} (h : r.place.waiting=some stage) (wakeAt : ℚ) :
      Move q l now e k r (r.goto (.asleep stage wakeAt))
  | send {stage : Stage} (h : r.place.due=some stage) (attempt : ℕ) :
      Move q l now e k r { r with
        place := .inFlight stage attempt
        sent := r.sent++[⟨stage,(q stage).managed,(q stage).weight,l.Banned now,none⟩] }
  | retry {stage : Stage} {attempt : ℕ} (h : r.place=.inFlight stage attempt) (a : Attempt)
      (he : e.Retries (q stage) k a) (hn : (q stage).again attempt=true) (wakeAt : ℚ) :
      Move q l now e k r ((r.settle a).goto (.resting stage (attempt+1) wakeAt))
  | back {stage : Stage} (h : r.place.under=some stage) (a : Attempt) (synced : Bool) :
      Move q l now e k r ((r.settle a).goto (next stage (execute a) synced))
  | head {stage : Stage} (h : r.place.under=some stage) (head : Head) :
      Move q l now e k r (r.goto (.reading stage head))
  | drop : Move q l now e k r (r.goto .dropped)

theorem Running.sent_settle {r : Running} {xs : List Sent} {x : Sent} (h : r.sent=xs++[x]) (a : Attempt) :
    (r.settle a).sent=xs++[{ x with outcome := some a }] := by
  simp [settle,h]

namespace State

variable {clients : ℕ → Client} {s : State} {e : Event} {k : ℕ} {r : Running}

/-- The events leave the calls as they are, or move one of them. -/
def Moves (clients : ℕ → Client) (s : State) (e : Event) (k : ℕ) (r : Running) (s' : State) : Prop :=
  s'.running=s.running ∨
    ∃ r', r.Move (request clients r) s.limiter s.now e k r' ∧ s'.running=s.running.set k r'

@[simp] theorem running_set (r' : Running) : (s.set k r').running=s.running.set k r' := rfl

@[simp] theorem running_setClock (client : ℕ) (t : ServerTime) :
    (s.setClock client t).running=s.running := rfl

@[simp] theorem running_finish (stage : Stage) (result : Except BinanceError JsonBody) (synced : Bool)
    (clockMs : ℤ) : (s.finish k r stage result synced clockMs).running=
      s.running.set k (r.goto (Running.next stage result synced)) := by
  cases stage <;> rfl

theorem moves_startCall (h : r.place=.begun) (clockMs : ℤ) :
    Moves clients s e k r (s.startCall clients k r clockMs) := by
  unfold startCall
  split
  · exact .inr ⟨_,.only h,rfl⟩
  · split_ifs
    · exact .inr ⟨_,.refuse _ h,rfl⟩
    · exact .inr ⟨_,.only h,rfl⟩
  · split_ifs
    · exact .inr ⟨_,.fresh (.inl h),rfl⟩
    · exact .inr ⟨_,.sync h,rfl⟩
    · exact .inr ⟨_,.refuse _ h,rfl⟩

theorem moves_lock {stage : Stage} (h : r.place=.locking stage) (clockMs : ℤ) :
    Moves clients s e k r (s.lock k r stage clockMs) := by
  unfold lock
  dsimp only
  split_ifs with hl hf
  · exact .inl rfl
  · exact .inr ⟨_,.fresh (.inr (by rw [h,hf.1])),rfl⟩
  · exact .inr ⟨_,.enter h,rfl⟩

theorem gateAt_ready (l : RestRateLimiter) (weight now : ℚ) (h : (l.gateAt weight now).1=.ready) :
    ¬l.Banned now := by
  intro hb
  have hb' : now<(l.refill now).blockedUntil := hb.2
  simp only [RestRateLimiter.gateAt,if_pos hb'] at h
  split_ifs at h

theorem kind_heldBack (wait : ℕ) :
    ∃ e, execute (.heldBack wait)=.error e ∧ e.kind ≠ .clockSkew := by
  refine ⟨_,rfl,?_⟩
  intro h
  cases h

theorem moves_acquire {stage : Stage} (h : r.place.waiting=some stage) (clockMs : ℤ) :
    Moves clients s (.poll k clockMs) k r (s.acquire clients k r stage clockMs) := by
  unfold acquire
  dsimp only
  have hready := gateAt_ready s.limiter (request clients r stage).weight s.now
  cases hg : s.limiter.gateAt (request clients r stage).weight s.now with
  | mk gate limiter =>
    rw [hg] at hready
    have haway : ∀ wait, Moves clients s (.poll k clockMs) k r
        (finish { s with limiter := limiter } k r stage (execute (.heldBack wait)) false clockMs) := by
      intro wait
      obtain ⟨e,he,hk⟩ := kind_heldBack wait
      rw [he]
      exact .inr ⟨_,.turn h e hk,running_finish ..⟩
    cases gate with
    | ready => exact .inr ⟨_,.acquire h (hready rfl) rfl,rfl⟩
    | banned remaining => exact haway _
    | wait span =>
      dsimp only
      split_ifs
      · exact haway _
      · exact .inr ⟨_,.sleep h _,rfl⟩

theorem moves_send {stage : Stage} (h : r.place.due=some stage) (attempt : ℕ) :
    Moves clients s e k r (s.send clients k r stage attempt) := .inr ⟨_,.send h attempt,rfl⟩

theorem moves_poll (clockMs : ℤ) :
    Moves clients s (.poll k clockMs) k r (s.poll clients k r clockMs) := by
  unfold poll
  cases h : r.place with
  | begun => exact moves_startCall h clockMs
  | locking stage => exact moves_lock h clockMs
  | entering stage =>
    dsimp only
    split_ifs with hu hm
    · refine .inr ⟨_,.turn (by rw [h]; rfl) _ ?_,running_finish ..⟩
      intro hk
      cases hk
    · exact .inr ⟨_,.meter h,rfl⟩
    · exact .inr ⟨_,.free h (by simpa using hm),rfl⟩
  | acquiring stage => exact moves_acquire (by rw [h]; rfl) clockMs
  | asleep stage wakeAt =>
    dsimp only
    split_ifs
    · exact moves_acquire (by rw [h]; rfl) clockMs
    · exact .inl rfl
  | sending stage attempt => exact moves_send (by rw [h]; rfl) attempt
  | resting stage attempt wakeAt =>
    dsimp only
    split_ifs
    · exact moves_send (by rw [h]; rfl) attempt
    · exact .inl rfl
  | _ => exact .inl rfl

theorem moves_failed {a : Attempt} {retry : Request → Bool}
    (ha : ∀ q, retry q=true → e.Retries q k a) (clockMs : ℤ) : Moves clients s e k r (s.failed clients k r a retry clockMs) := by
  unfold failed
  cases h : r.place with
  | inFlight stage attempt =>
    dsimp only
    split_ifs with hr
    · exact .inr ⟨_,.retry h a (ha _ hr.1) hr.2 _,rfl⟩
    · exact .inr ⟨_,.back (by rw [h]; rfl) a false,running_finish ..⟩
  | _ => exact .inl rfl

theorem moves_headers (head : Head) : Moves clients s e k r (s.headers clients k r head) := by
  unfold headers
  cases h : r.place with
  | inFlight stage attempt =>
    have hu : r.place.under=some stage := by
      rw [h]
      rfl
    refine .inr ⟨_,.head hu head,?_⟩
    dsimp only
    split
    · split_ifs <;> rfl
    · rfl
  | _ => exact .inl rfl

theorem moves_answered (body : Body) (serverTime : Bool) (clockMs : ℤ) :
    Moves clients s e k r (s.answered clients k r body serverTime clockMs) := by
  unfold answered
  cases h : r.place with
  | reading stage head =>
    let p := Head.response head body
    have hu : r.place.under=some stage := by
      rw [h]
      rfl
    refine .inr ⟨_,.back hu (.answered p) (synced p serverTime),?_⟩
    dsimp only
    rw [running_finish]
    split_ifs <;> rfl
  | _ => exact .inl rfl

theorem moves_giveUp : Moves clients s e k r (s.giveUp k r) := by
  unfold giveUp
  split
  · exact .inl rfl
  · exact .inr ⟨_,.drop,rfl⟩

/-- What is so of each call, and is kept by its moves, is kept by an event. -/
theorem forall_running_step {P : Running → Prop} (e : Event)
    (hbegin : ∀ client call, P ⟨client,call,.begun,[],[]⟩)
    (hmove : ∀ k r r', s.running[k]?=some r → r.Move (request clients r) s.limiter s.now e k r' →
      P r → P r')
    (h : ∀ r ∈ s.running, P r) : ∀ r ∈ (s.step clients e).running, P r := by
  have hmoves : ∀ {k r s'}, s.running[k]?=some r → Moves clients s e k r s' →
      ∀ x ∈ s'.running, P x := by
    intro k r s' hr hs' x hx
    obtain heq|⟨r',hmv,heq⟩ := hs'
    · exact h x (heq ▸ hx)
    · rw [heq] at hx
      obtain hx|rfl := List.mem_or_eq_of_mem_set hx
      · exact h x hx
      · exact hmove k r x hr hmv (h r (List.mem_of_getElem? hr))
  have hcall : ∀ (k : ℕ) (f : Running → State), (∀ r, Moves clients s e k r (f r)) →
      ∀ r ∈ ((s.running[k]?.map f).getD s).running, P r := by
    intro k f hf
    cases hr : s.running[k]? with
    | none => exact h
    | some r => exact hmoves hr (hf r)
  cases e with
  | begin client call =>
    intro x hx
    obtain hx|hx := List.mem_append.mp hx
    · exact h x hx
    · rw [List.mem_singleton.mp hx]
      exact hbegin client call
  | elapse span =>
    simp only [step]
    split_ifs <;> exact h
  | poll k clockMs => exact hcall k _ fun _ => moves_poll clockMs
  | connectFailed k error clockMs =>
    have ha : ∀ q : Request, (Event.connectFailed k error clockMs).Retries q k (.connectFailed error) :=
      fun _ => ⟨rfl,rfl⟩
    exact hcall k _ fun _ => moves_failed (fun q _ => ha q) clockMs
  | sendFailed k error timedOut request clockMs =>
    have ha : ∀ q : Request, q.retryable timedOut request=true →
        (Event.sendFailed k error timedOut request clockMs).Retries q k (.sendFailed error timedOut) :=
      fun _ hq => ⟨rfl,rfl,hq⟩
    exact hcall k _ fun _ => moves_failed ha clockMs
  | headers k head => exact hcall k _ fun _ => moves_headers head
  | body k body serverTime clockMs =>
    exact hcall k _ fun _ => moves_answered body serverTime clockMs
  | drop k => exact hcall k _ fun _ => moves_giveUp

end State

namespace Running

variable {q : Stage → Request} {l : RestRateLimiter} {now : ℚ} {e : Event} {k : ℕ} {r r' : Running}

theorem Move.call (hm : r.Move q l now e k r') : r'.call=r.call := by
  cases hm <;> rfl

theorem Move.client (hm : r.Move q l now e k r') : r'.client=r.client := by
  cases hm <;> rfl

theorem Move.request {clients : ℕ → Client} (hm : r.Move q l now e k r') :
    State.request clients r'=State.request clients r := by
  funext stage
  rw [State.request,State.request,hm.call,hm.client]

end Running
end Rest
end TradeGate
