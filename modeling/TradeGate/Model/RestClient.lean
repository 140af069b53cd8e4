import TradeGate.Machine.Run
import TradeGate.Model.RateLimit

/-! The REST client of the execution daemon at work: calls that run side by side, the limiter and
the clocks they share, and what each of them sends. -/
namespace TradeGate

inductive Method | get | post | put | delete | other (name : String)
deriving DecidableEq

namespace Rest

/-- A client: its keys, and the URL of the server time if it can be built. -/
structure Client where
  apiKey : String
  apiSecret : String
  timeUrl : Option Url
deriving DecidableEq

def Client.hasCredentials (c : Client) : Bool := c.apiKey ≠ "" ∧ c.apiSecret ≠ ""

/-- A call of the client; the URL carries the parameters, and is missing if it cannot be built. -/
inductive Call
  | publicGet (url : Option Url)
  | keyedRequest (method : Method) (url : Option Url)
  | signedRequest (method : Method) (url : Option Url)
deriving DecidableEq

/-- The requests of a call: its only one, or the four of a signed one. -/
inductive Stage
  | only
  | ensureTime
  | first
  | resync (original : BinanceError)
  | second
deriving DecidableEq

/-- The stage sends what the caller asked to have signed. -/
def Stage.signed : Stage → Bool
  | .first | .second => true
  | _ => false

structure Request where
  method : Method
  url : Option Url
  maxAttempts : ℕ
deriving DecidableEq

def defaultMaxAttempts : ℕ := 5

/-- What a call hands to `execute`. -/
def Call.request (c : Client) (call : Call) : Stage → Request
  | .ensureTime | .resync _ => ⟨.get,c.timeUrl,defaultMaxAttempts⟩
  | .only | .first | .second =>
    match call with
    | .publicGet url => ⟨.get,url,defaultMaxAttempts⟩
    | .keyedRequest method url => ⟨method,url,if method=.get then defaultMaxAttempts else 1⟩
    | .signedRequest method url =>
      ⟨method,url,
        if method=.post ∨ method=.put ∨ method=.delete then 1 else defaultMaxAttempts⟩

namespace Request

variable (q : Request)

def managed : Bool := q.url.any Url.official

def weight : ℕ := (q.url.map Url.weight).getD 0

/-- `retryable`, of an error that is no failure to connect. -/
def retryable (timedOut request : Bool) : Bool := (timedOut || request) && q.method=.get

/-- `for attempt in 0..max_attempts.max(1)`: there is one more after this. -/
def again (attempt : ℕ) : Bool := attempt+1 < max q.maxAttempts 1

end Request

/-- What the head of a response tells. -/
structure Head where
  status : ℕ
  reason : String
  usedWeight : Option ℚ
  retryAfter : Option String
deriving DecidableEq

/-- Where a call stands. -/
inductive Place
  | begun
  | locking (stage : Stage)
  | entering (stage : Stage)
  | acquiring (stage : Stage)
  | asleep (stage : Stage) (wakeAt : ℚ)
  | sending (stage : Stage) (attempt : ℕ)
  | resting (stage : Stage) (attempt : ℕ) (wakeAt : ℚ)
  | inFlight (stage : Stage) (attempt : ℕ)
  | reading (stage : Stage) (head : Head)
  | returned (result : Except BinanceError JsonBody)
  /-- Its caller has given it up. -/
  | dropped

/-- One `client.execute`: what was sent, whether the limiter then held a ban, and what came of it. -/
structure Sent where
  stage : Stage
  managed : Bool
  weight : ℕ
  banned : Bool
  outcome : Option Attempt
deriving DecidableEq

/-- A call under way, with the weights it has acquired and what it has sent. -/
structure Running where
  client : ℕ
  call : Call
  place : Place
  acquired : List (Stage × ℕ)
  sent : List Sent

/-- `ServerTimeState`; the offset only enters into what is signed. -/
structure ServerTime where
  lastAttemptMs : ℤ
  lockedBy : Option ℕ

structure State where
  now : ℚ
  limiter : RestRateLimiter
  clocks : ℕ → ServerTime
  running : List Running

/-- A client of the live account. -/
def mainClient : Client := ⟨"key","secret",some ⟨some "fapi.binance.com","/fapi/v1/time",[]⟩⟩

inductive Event
  | begin (client : ℕ) (call : Call)
  | elapse (span : ℚ)
  /-- The task of a call goes on by itself. -/
  | poll (k : ℕ) (clockMs : ℤ)
  | connectFailed (k : ℕ) (error : String) (clockMs : ℤ)
  | sendFailed (k : ℕ) (error : String) (timedOut request : Bool) (clockMs : ℤ)
  | headers (k : ℕ) (head : Head)
  | body (k : ℕ) (body : Body) (serverTime : Bool) (clockMs : ℤ)
  /-- The future of a call is dropped. -/
  | drop (k : ℕ)

def serverTimeSyncIntervalMs : ℤ := 1800000

namespace ServerTime

variable (t : ServerTime)

def freshEnough (clockMs : ℤ) : Bool := clockMs-t.lastAttemptMs<serverTimeSyncIntervalMs

def unlock (k : ℕ) : ServerTime := if t.lockedBy=some k then { t with lockedBy := none } else t

end ServerTime

namespace Running

variable (r : Running)

def goto (place : Place) : Running := { r with place := place }

/-- The last `client.execute` comes back. -/
def settle (a : Attempt) : Running :=
  { r with sent := r.sent.dropLast++(r.sent.getLast?.map fun x => { x with outcome := some a }).toList }

/-- Where a call goes when the `execute` of a stage returns. -/
def next (stage : Stage) (result : Except BinanceError JsonBody) (synced : Bool) : Place :=
  match stage with
  | .only | .second => .returned result
  | .ensureTime => .entering .first
  | .first =>
    match result with
    | .ok value => .returned (.ok value)
    | .error e => if e.kind=.clockSkew then .locking (.resync e) else .returned (.error e)
  | .resync original => if synced then .entering .second else .returned (.error original)

end Running

namespace State

variable (clients : ℕ → Client) (s : State)

def set (k : ℕ) (r : Running) : State := { s with running := s.running.set k r }

def setClock (client : ℕ) (t : ServerTime) : State :=
  { s with clocks := fun c => if c=client then t else s.clocks c }

/-- What the call hands to `execute` at a stage. -/
def request (r : Running) (stage : Stage) : Request := r.call.request (clients r.client) stage

/-- The `execute` of a stage returns. -/
def finish (k : ℕ) (r : Running) (stage : Stage) (result : Except BinanceError JsonBody)
    (synced : Bool) (clockMs : ℤ) : State :=
  let s' := s.set k (r.goto (Running.next stage result synced))
  match stage with
  | .ensureTime | .resync _ =>
    s'.setClock r.client { (s.clocks r.client).unlock k with lastAttemptMs := clockMs }
  | _ => s'

/-- The caller needs credentials; then the server time is looked at. -/
def startCall (k : ℕ) (r : Running) (clockMs : ℤ) : State :=
  match r.call with
  | .publicGet _ => s.set k (r.goto (.entering .only))
  | .keyedRequest .. =>
    if (clients r.client).apiKey="" then
      s.set k (r.goto (.returned (.error (.ofLocalReject "credentials_missing" "该端点需要 API key"))))
    else s.set k (r.goto (.entering .only))
  | .signedRequest .. =>
    if ¬(clients r.client).hasCredentials then
      s.set k (r.goto (.returned (.error (.ofLocalReject "credentials_missing"
        ("缺少主账户 API key/secret:设置 TG_MAIN_API_KEY/TG_MAIN_API_SECRET 或写入 " ++
          "~/.trading-swarm/secrets/apikey-main.json")))))
    else if (s.clocks r.client).freshEnough clockMs then s.set k (r.goto (.entering .first))
    else s.set k (r.goto (.locking .ensureTime))

/-- `sync_server_time` at its lock. -/
def lock (k : ℕ) (r : Running) (stage : Stage) (clockMs : ℤ) : State :=
  let t := s.clocks r.client
  if t.lockedBy.isSome then s
  else if stage=.ensureTime ∧ t.freshEnough clockMs then s.set k (r.goto (.entering .first))
  else (s.set k (r.goto (.entering stage))).setClock r.client { t with lockedBy := some k }

/-- One round of `acquire`. -/
def acquire (k : ℕ) (r : Running) (stage : Stage) (clockMs : ℤ) : State :=
  let weight := (request clients r stage).weight
  let (gate,limiter) := s.limiter.gateAt weight s.now
  let s := { s with limiter := limiter }
  match gate with
  | .ready =>
    s.set k { r with place := .sending stage 0, acquired := r.acquired++[(stage,weight)] }
  | .banned remaining => s.finish k r stage (execute (.heldBack ⌊remaining⌋.toNat)) false clockMs
  | .wait span =>
    if RestRateLimiter.maxAcquireWait<span then
      s.finish k r stage (execute (.heldBack ⌊span⌋.toNat)) false clockMs
    else s.set k (r.goto (.asleep stage (s.now+span)))

/-- `client.execute` is called. -/
def send (k : ℕ) (r : Running) (stage : Stage) (attempt : ℕ) : State :=
  let q := request clients r stage
  s.set k { r with
    place := .inFlight stage attempt
    sent := r.sent++[⟨stage,q.managed,q.weight,s.limiter.Banned s.now,none⟩] }

def poll (k : ℕ) (r : Running) (clockMs : ℤ) : State :=
  match r.place with
  | .begun => s.startCall clients k r clockMs
  | .locking stage => s.lock k r stage clockMs
  | .entering stage =>
    let q := request clients r stage
    if q.url=none then
      s.finish k r stage (.error (.ofTransport "请求构造失败:builder error" false)) false clockMs
    else if q.managed then s.set k (r.goto (.acquiring stage))
    else s.set k (r.goto (.sending stage 0))
  | .acquiring stage => s.acquire clients k r stage clockMs
  | .asleep stage wakeAt => if wakeAt ≤ s.now then s.acquire clients k r stage clockMs else s
  | .sending stage attempt => s.send clients k r stage attempt
  | .resting stage attempt wakeAt => if wakeAt ≤ s.now then s.send clients k r stage attempt else s
  | _ => s

/-- `client.execute` yields an error: it is tried once more after a rest, or the request has failed. -/
def failed (k : ℕ) (r : Running) (a : Attempt) (retry : Request → Bool) (clockMs : ℤ) : State :=
  match r.place with
  | .inFlight stage attempt =>
    let q := request clients r stage
    if retry q ∧ q.again attempt then
      s.set k ((r.settle a).goto (.resting stage (attempt+1) (s.now+2^attempt/5)))
    else s.finish k (r.settle a) stage (execute a) false clockMs
  | _ => s

def headers (k : ℕ) (r : Running) (head : Head) : State :=
  match r.place with
  | .inFlight stage _ =>
    let s' := s.set k (r.goto (.reading stage head))
    match head.usedWeight with
    | some used =>
      if (request clients r stage).managed then
        { s' with limiter := s.limiter.observeUsedWeight used s.now }
      else s'
    | none => s'
  | _ => s

/-- The response whose body has been read. -/
def Head.response (head : Head) (body : Body) : Response := ⟨head.status,head.reason,body⟩

/-- A response by which the exchange limits its callers. -/
def limits (p : Response) : Prop :=
  ¬p.success ∧ (match p.body with | .unreadable _ => False | _ => True) ∧
    BinanceErrorKind.classify (some p.status) p.payload.code=.rateLimited

instance (p : Response) : Decidable (limits p) :=
  have : Decidable (match p.body with | .unreadable _ => False | _ => True) :=
    match p.body with
    | .unreadable _ => .isFalse id
    | .blank | .json _ | .notJson _ => .isTrue trivial
  inferInstanceAs (Decidable (_ ∧ _ ∧ _))

/-- `sync_server_time` has found the time of the server in the answer. -/
def synced (p : Response) (serverTime : Bool) : Bool :=
  (execute (.answered p)).toOption.isSome && p.body ≠ .blank && serverTime

/-- The body has been read, or could not be. -/
def answered (k : ℕ) (r : Running) (body : Body) (serverTime : Bool) (clockMs : ℤ) : State :=
  match r.place with
  | .reading stage head =>
    let p := Head.response head body
    let banFor := max (parseBanRemaining p.payload clockMs) (parseRetryAfter head.retryAfter)
    let s := if (request clients r stage).managed ∧ limits p then
        { s with limiter := s.limiter.rateLimitedFor s.now banFor }
      else s
    s.finish k (r.settle (.answered p)) stage (execute (.answered p)) (synced p serverTime) clockMs
  | _ => s

def giveUp (k : ℕ) (r : Running) : State :=
  match r.place with
  | .returned _ => s
  | _ => (s.set k (r.goto .dropped)).setClock r.client ((s.clocks r.client).unlock k)

/-- One event; one that is about no call changes nothing. -/
def step : Event → State
  | .begin client call => { s with running := s.running++[⟨client,call,.begun,[],[]⟩] }
  | .elapse span => if 0 ≤ span then { s with now := s.now+span } else s
  | .poll k clockMs => (s.running[k]?.map fun r => s.poll clients k r clockMs).getD s
  | .connectFailed k error clockMs =>
    (s.running[k]?.map fun r =>
      s.failed clients k r (.connectFailed error) (fun _ => true) clockMs).getD s
  | .sendFailed k error timedOut request clockMs =>
    (s.running[k]?.map fun r =>
      s.failed clients k r (.sendFailed error timedOut) (·.retryable timedOut request) clockMs).getD s
  | .headers k head => (s.running[k]?.map fun r => s.headers clients k r head).getD s
  | .body k body serverTime clockMs =>
    (s.running[k]?.map fun r => s.answered clients k r body serverTime clockMs).getD s
  | .drop k => (s.running[k]?.map fun r => s.giveUp k r).getD s

/-- No call is under way. -/
def idle (now : ℚ) (limiter : RestRateLimiter) (clocks : ℕ → ServerTime) : State :=
  ⟨now,limiter,clocks,[]⟩

end State
end Rest
end TradeGate
