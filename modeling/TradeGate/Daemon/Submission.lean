import TradeGate.Daemon.Calls

/-! How often an order request is sent. -/
namespace TradeGate
open Machine
namespace Rest

/-- A signed request that must not be repeated: POST, PUT or DELETE. -/
def Call.Writes : Call → Prop
  | .signedRequest method _ => method=.post ∨ method=.put ∨ method=.delete
  | _ => False

/-- The response has been received, and its code refuses the clock or the signature. -/
def Sent.Refused (x : Sent) : Prop := ∃ a ∈ x.outcome, a.skewed

def signedOf (xs : List Sent) : List Sent := xs.filter fun x => x.stage.signed

/-- What a call has sent of the signed request. -/
def Running.orders (r : Running) : List Sent := signedOf r.sent

/-- What has been sent when the request of a stage is about to be. -/
def Due (xs : List Sent) : Stage → Prop
  | .only | .ensureTime | .first => xs=[]
  | .resync _ | .second => ∃ x, xs=[x] ∧ x.Refused

/-- At most two, and the second after a refusal of the first. -/
def AtMostTwice (xs : List Sent) : Prop :=
  xs=[] ∨ (∃ x, xs=[x]) ∨ ∃ x y, xs=[x,y] ∧ x.Refused

/-- What a call has sent, by where it stands. -/
structure Running.Careful (r : Running) : Prop where
  begun : r.place=.begun → r.orders=[]
  waiting : ∀ stage, r.place.waiting=some stage → Due r.orders stage
  under : ∀ stage, r.place.under=some stage →
    ∃ xs x, r.sent=xs++[x] ∧ x.stage=stage ∧ Due (signedOf xs) stage
  atMostTwice : AtMostTwice r.orders

theorem signedOf_append (xs ys : List Sent) : signedOf (xs++ys)=signedOf xs++signedOf ys :=
  List.filter_append ..

theorem signedOf_singleton (x : Sent) : signedOf [x]=if x.stage.signed then [x] else [] := by
  simp [signedOf,List.filter_cons]

theorem Due.atMostTwice {xs : List Sent} {stage : Stage} (h : Due xs stage) : AtMostTwice xs := by
  cases stage with
  | only | ensureTime | first => exact .inl h
  | resync _ | second =>
    obtain ⟨x,hx,-⟩ := h
    exact .inr (.inl ⟨x,hx⟩)

theorem Due.append {xs : List Sent} {stage : Stage} (h : Due xs stage) {x : Sent}
    (hx : x.stage=stage) : AtMostTwice (xs++signedOf [x]) := by
  rw [signedOf_singleton,hx]
  cases stage with
  | only | ensureTime =>
    rw [show xs=[] from h]
    exact .inl rfl
  | first =>
    rw [show xs=[] from h]
    exact .inr (.inl ⟨x,rfl⟩)
  | resync original =>
    obtain ⟨y,rfl,-⟩ := h
    exact .inr (.inl ⟨y,rfl⟩)
  | second =>
    obtain ⟨y,rfl,hy⟩ := h
    exact .inr (.inr ⟨y,x,rfl,hy⟩)

namespace Running

variable {r : Running} {stage : Stage}

/-- The call has left the limiter and the network. -/
theorem Careful.done {r' : Running} (h : AtMostTwice r'.orders) (hb : r'.place ≠ .begun)
    (hw : r'.place.waiting=none) (hu : r'.place.under=none) : r'.Careful := by
  refine ⟨fun hp => absurd hp hb,fun stage hp => ?_,fun stage hp => ?_,h⟩
  · rw [hw] at hp
    cases hp
  · rw [hu] at hp
    cases hp

theorem Careful.wait (stage : Stage) {r' : Running} (hp : r'.place.waiting=some stage) (h : Due r'.orders stage) :
    r'.Careful := by
  refine ⟨fun hb => ?_,fun stage' hp' => ?_,fun stage' hp' => ?_,h.atMostTwice⟩
  · rw [hb] at hp
    cases hp
  · rw [hp] at hp'
    rwa [← Option.some.inj hp']
  · cases hr : r'.place <;> rw [hr] at hp hp' <;> cases hp <;> cases hp'

theorem Careful.sent {r' : Running} (hp : r'.place.under=some stage) {xs : List Sent} {x : Sent}
    (hsent : r'.sent=xs++[x]) (hx : x.stage=stage) (h : Due (signedOf xs) stage) : r'.Careful := by
  refine ⟨fun hb => ?_,fun stage' hp' => ?_,fun stage' hp' => ?_,?_⟩
  · rw [hb] at hp
    cases hp
  · cases hr : r'.place <;> rw [hr] at hp hp' <;> cases hp <;> cases hp'
  · rw [hp] at hp'
    exact ⟨xs,x,hsent,hx.trans (Option.some.inj hp'),by rwa [← Option.some.inj hp']⟩
  · rw [orders,hsent,signedOf_append]
    exact h.append hx

/-- The `execute` of a stage returns before anything was sent. -/
theorem Careful.turn (r' : Running) (h : Due r'.orders stage) (e : BinanceError)
    (he : e.kind ≠ .clockSkew) (hp : r'.place=next stage (.error e) false) : r'.Careful := by
  cases stage with
  | ensureTime =>
    rw [next] at hp
    exact .wait .first (by rw [hp]; rfl) h
  | first =>
    rw [next,if_neg he] at hp
    exact .done h.atMostTwice (by rw [hp]; rintro ⟨⟩) (by rw [hp]; rfl) (by rw [hp]; rfl)
  | _ => exact .done h.atMostTwice (by rw [hp]; rintro ⟨⟩) (by rw [hp]; rfl) (by rw [hp]; rfl)

/-- The `execute` of a stage returns what came of the last thing sent. -/
theorem Careful.back (r' : Running) {xs : List Sent} {x : Sent} {a : Attempt}
    (hsent : r'.sent=xs++[x]) (hx : x.stage=stage) (ha : x.outcome=some a) (h : Due (signedOf xs) stage)
    (synced : Bool) (hp : r'.place=next stage (execute a) synced) : r'.Careful := by
  have horders : r'.orders=signedOf xs++signedOf [x] := by
    rw [orders,hsent,signedOf_append]
  have htwice : AtMostTwice r'.orders := horders ▸ h.append hx
  have hdone : ∀ result, r'.place=.returned result → r'.Careful := by
    intro result hp
    exact .done htwice (by rw [hp]; rintro ⟨⟩) (by rw [hp]; rfl) (by rw [hp]; rfl)
  cases stage with
  | only | second => exact hdone _ hp
  | ensureTime =>
    refine .wait .first (by rw [hp]; rfl) ?_
    rw [horders,signedOf_singleton,hx,show signedOf xs=[] from h]
    rfl
  | first =>
    cases hexec : execute a with
    | ok value =>
      rw [hexec] at hp
      exact hdone _ hp
    | error e =>
      rw [hexec,next] at hp
      split_ifs at hp with hk
      · refine .wait (.resync e) (by rw [hp]; rfl) ⟨x,?_,a,ha,?_⟩
        · rw [horders,signedOf_singleton,hx,show signedOf xs=[] from h]
          rfl
        · exact execute_clockSkew_iff.mp ⟨e,hexec,hk⟩
      · exact hdone _ hp
  | resync original =>
    cases synced with
    | true =>
      refine .wait .second (by rw [hp]; rfl) ?_
      rw [horders,signedOf_singleton,hx]
      obtain ⟨y,hy,hr⟩ := h
      exact ⟨y,by simp [hy,Stage.signed],hr⟩
    | false => exact hdone _ hp

theorem again_eq_false (clients : ℕ → Client) (h : r.call.Writes) (hs : stage.signed=true) (n : ℕ) :
    (State.request clients r stage).again n=false := by
  have hone : (State.request clients r stage).maxAttempts=1 := by
    obtain ⟨client,call,place,acquired,sent⟩ := r
    cases call with
    | signedRequest method url =>
      cases stage with
      | first | second => exact if_pos h
      | _ => cases hs
    | _ => cases h
  simp [Request.again,hone]

/-- Every move of a call keeps to it. -/
theorem Careful.move {clients : ℕ → Client} {l : RestRateLimiter} {now : ℚ} {e : Event}
    {k : ℕ} {r' : Running} (hm : r.Move (State.request clients r) l now e k r') (hw : r.call.Writes)
    (h : r.Careful) :
    r'.Careful := by
  have hempty : r.place=.begun ∨ r.place=.locking .ensureTime → r.orders=[] := by
    rintro (hp|hp)
    · exact h.begun hp
    · exact h.waiting .ensureTime (by rw [hp]; rfl)
  cases hm with
  | refuse e hp => exact .done h.atMostTwice (by rintro ⟨⟩) rfl rfl
  | only hp => exact .wait .only rfl (h.begun hp)
  | fresh hp => exact .wait .first rfl (hempty hp)
  | sync hp => exact .wait .ensureTime rfl (h.begun hp)
  | @enter stage hp => exact .wait stage rfl (h.waiting stage (by rw [hp]; rfl))
  | @meter stage hp => exact .wait stage rfl (h.waiting stage (by rw [hp]; rfl))
  | @free stage hp hm => exact .wait stage rfl (h.waiting stage (by rw [hp]; rfl))
  | turn hp e he => exact .turn (r.goto _) (h.waiting _ hp) e he rfl
  | acquire hp hb he => exact .wait _ rfl (h.waiting _ hp)
  | sleep hp wakeAt => exact .wait _ rfl (h.waiting _ hp)
  | send hp attempt => exact .sent rfl rfl rfl (h.waiting _ (Place.due_waiting hp))
  | @retry stage attempt hp a he hn wakeAt =>
    obtain ⟨xs,x,hsent,hx,hdue⟩ := h.under stage (by rw [hp]; rfl)
    have hs : stage.signed=false := by
      by_contra hs
      rw [again_eq_false clients hw (by simpa using hs)] at hn
      cases hn
    refine .wait stage rfl ?_
    have horders : ((r.settle a).goto (.resting stage (attempt+1) wakeAt)).orders=signedOf xs := by
      rw [orders,goto,sent_settle hsent,signedOf_append,signedOf_singleton]
      simp [hx,hs]
    rwa [horders]
  | @back stage hp a synced =>
    obtain ⟨xs,x,hsent,hx,hdue⟩ := h.under stage hp
    exact .back ((r.settle a).goto _) (sent_settle hsent a) hx rfl hdue synced rfl
  | @head stage hp head =>
    obtain ⟨xs,x,hsent,hx,hdue⟩ := h.under stage hp
    exact .sent rfl hsent hx hdue
  | drop => exact .done h.atMostTwice (by rintro ⟨⟩) rfl rfl

end Running

namespace State

variable (clients : ℕ → Client) (now : ℚ) (limiter : RestRateLimiter) (clocks : ℕ → ServerTime)

theorem careful_run (es : List Event) :
    ∀ r ∈ (run (step clients) (idle now limiter clocks) es).running, r.call.Writes → r.Careful := by
  refine run_invariant (P := fun _ _ => True)
    (I := fun s : State => ∀ r ∈ s.running, r.call.Writes → r.Careful) ?_ ?_
    (throughout_of_forall (P := fun _ => True) fun _ _ => trivial)
  · intro s e h _
    refine forall_running_step e ?_ ?_ h
    · intro client call _
      refine ⟨fun _ => rfl,?_,?_,.inl rfl⟩ <;> (rintro _ ⟨⟩)
    · intro k r r' _ hm hr hw
      rw [hm.call] at hw
      exact .move hm hw (hr hw)
  · rintro r ⟨⟩

/-- Whatever the network and the exchange do, a signed POST, PUT or DELETE is sent at most twice, and
a second time only when the clock or the signature of the first was refused; so an exchange that does
not execute what it refuses executes it at most once. -/
theorem executed_at_most_once (es : List Event) :
    ∀ r ∈ (run (step clients) (idle now limiter clocks) es).running, r.call.Writes →
      r.orders.length ≤ 2 ∧ (∀ x y, r.orders=[x,y] → x.Refused) ∧
        ∀ executed : ℕ → Prop,
          (∀ i x, r.orders[i]?=some x → x.Refused → ¬executed i) →
            ∀ i j, i<r.orders.length → j<r.orders.length → executed i → executed j → i=j := by
  intro r hr hw
  obtain h|⟨x,h⟩|⟨x,y,h,hx⟩ := (careful_run clients now limiter clocks es r hr hw).atMostTwice
  · rw [h]
    exact ⟨by simp,by simp,by simp⟩
  · rw [h]
    refine ⟨by simp,by simp,fun executed _ i j hi hj _ _ => ?_⟩
    simp only [List.length_singleton] at hi hj
    omega
  · rw [h]
    refine ⟨by simp,?_,fun executed hrefused i j hi hj hei hej => ?_⟩
    · intro x' y' heq
      obtain ⟨rfl,-⟩ := List.cons.inj heq
      exact hx
    · have hzero : ¬executed 0 := hrefused 0 x rfl hx
      have hi₀ : i ≠ 0 := fun hi => hzero (hi ▸ hei)
      have hj₀ : j ≠ 0 := fun hj => hzero (hj ▸ hej)
      simp only [List.length_cons,List.length_nil] at hi hj
      omega

def orderUrl : Url := ⟨some "fapi.binance.com","/fapi/v1/order",[("symbol","BTCUSDT")]⟩

/-- An order whose time stamp is refused, a look at the server time, and the order once more. -/
def resigned : List Event :=
  [.begin 0 (.signedRequest .post (some orderUrl))]++.replicate 4 (.poll 0 0)++
    [.headers 0 ⟨400,"Bad Request",none,none⟩,.body 0 (.json ⟨some (-1021),none,none,none⟩) false 0]++
    .replicate 4 (.poll 0 0)++
    [.headers 0 ⟨200,"OK",none,none⟩,.body 0 (.json .empty) true 0]++.replicate 4 (.poll 0 0)

theorem resigned_order_executed_at_most_once :
    ∃ r ∈ (run (step fun _ => mainClient) (idle 0 (.new id 720 720 0) fun _ => ⟨0,none⟩) resigned).running,
      r.orders.length=2 ∧ ∀ x y, r.orders=[x,y] → x.Refused := by
  have hone : ((run (step fun _ => mainClient) (idle 0 (.new id 720 720 0) fun _ => ⟨0,none⟩)
      resigned).running.map fun r => (r.call,r.orders.length))=
        [(.signedRequest .post (some orderUrl),2)] := by decide +kernel
  obtain ⟨r,hr,heq⟩ := List.map_eq_singleton_iff.mp hone
  obtain ⟨hcall,hlen⟩ := Prod.mk.inj heq
  have hmem : r ∈ (run (step fun _ => mainClient) (idle 0 (.new id 720 720 0) fun _ => ⟨0,none⟩)
      resigned).running := hr ▸ List.mem_singleton_self r
  have hw : r.call.Writes := by
    rw [hcall]
    exact .inl rfl
  exact ⟨r,hmem,hlen,(executed_at_most_once _ _ _ _ resigned r hmem hw).2.1⟩

end State
end Rest
end TradeGate
