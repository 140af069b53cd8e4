import Mathlib.Algebra.Order.Floor.Ring
import Mathlib.Data.Rat.Floor
import TradeGate.Daemon.Rest
import TradeGate.Number.Double

/-! The limiter that REST requests share: tokens by weight, and the ban that the exchange has given.
Instants and spans are in seconds. -/
namespace TradeGate

/-- What is read of the URL of a request. -/
structure Url where
  host : Option String
  path : String
  query : List (String × String)
deriving DecidableEq

namespace Url

def param (url : Url) (name : String) : Option String :=
  (url.query.lookup name).filter fun value => value ≠ ""

/-- `is_official_binance_host`. -/
def official (url : Url) : Bool :=
  url.host.any fun host => host ∈ ["fapi.binance.com","demo-fapi.binance.com","dapi.binance.com",
    "demo-dapi.binance.com","api.binance.com","api1.binance.com","api2.binance.com","api3.binance.com"]

def klinesWeight (limit : ℤ) : ℕ :=
  if 0 ≤ limit ∧ limit ≤ 99 then 1
  else if 100 ≤ limit ∧ limit ≤ 499 then 2
  else if 500 ≤ limit ∧ limit ≤ 1000 then 5
  else 10

def depthWeight (limit : ℤ) : ℕ :=
  if 0 ≤ limit ∧ limit ≤ 50 then 2
  else if 51 ≤ limit ∧ limit ≤ 100 then 5
  else if 101 ≤ limit ∧ limit ≤ 500 then 10
  else 20

/-- The weights of paths, with a symbol and without. -/
def weights : List (List String × ℕ × ℕ) :=
  [(["/fapi/v2/positionRisk","/fapi/v3/positionRisk"],5,5),
   (["/fapi/v2/account","/fapi/v3/account"],5,5),
   (["/fapi/v2/balance","/fapi/v3/balance"],5,5),
   (["/fapi/v1/openOrders","/fapi/v1/openAlgoOrders"],1,40),
   (["/fapi/v1/allOrders","/fapi/v1/userTrades","/fapi/v1/allAlgoOrders"],5,40),
   (["/fapi/v1/leverageBracket"],1,40),
   (["/fapi/v1/income","/fapi/v1/positionSide/dual","/fapi/v1/multiAssetsMargin"],30,30),
   (["/fapi/v1/commissionRate"],20,20),
   (["/fapi/v1/adlQuantile"],5,5),
   (["/fapi/v1/forceOrders"],20,50),
   (["/fapi/v1/order","/fapi/v1/allOpenOrders","/fapi/v1/leverage","/fapi/v1/marginType",
     "/fapi/v1/positionMargin","/fapi/v1/listenKey"],1,1),
   (["/fapi/v1/batchOrders"],5,5),
   (["/fapi/v1/countdownCancelAll"],10,10),
   (["/fapi/v1/exchangeInfo","/fapi/v1/time","/fapi/v1/ping","/fapi/v1/fundingRate"],1,1),
   (["/fapi/v1/ticker/price","/fapi/v1/ticker/bookTicker"],1,2),
   (["/fapi/v1/premiumIndex"],1,10),
   (["/fapi/v1/ticker/24hr"],1,40),
   (["/api/v3/account"],20,20),
   (["/api/v3/time","/api/v3/ping","/sapi/v1/account/apiRestrictions","/sapi/v1/sub-account/list",
     "/sapi/v3/sub-account/assets","/sapi/v1/sub-account/spotSummary",
     "/sapi/v1/sub-account/universalTransfer","/sapi/v1/asset/transfer"],1,1)]

/-- `estimated_request_weight`. -/
def weight (url : Url) : ℕ :=
  let limit := ((url.param "limit").bind fun value => Rust.parseI64 value.toList).getD 500
  if ["/klines","/markPriceKlines","/indexPriceKlines"].any
      fun suffix => suffix.toList.isSuffixOf url.path.toList then klinesWeight limit
  else if url.path="/fapi/v1/depth" then depthWeight limit
  else
    match weights.find? fun row => url.path ∈ row.1 with
    | some (_,withSymbol,without) => if (url.param "symbol").isSome then withSymbol else without
    | none => 5

end Url

inductive RestGate
  | ready
  | wait (span : ℚ)
  | banned (remaining : ℚ)
deriving DecidableEq

structure RestRateLimiter where
  /-- What becomes of a sum, a difference, a product or a quotient. -/
  rounded : ℚ → ℚ
  capacity : ℚ
  refillPerSecond : ℚ
  tokens : ℚ
  updatedAt : ℚ
  blockedUntil : ℚ
  /-- The block is a ban of the exchange. -/
  blockedByExchange : Bool
  backoffExp : ℕ
  lastLimited : Option ℚ

namespace RestRateLimiter

def maxAcquireWait : ℚ := 10

def maxHonoredBan : ℚ := 900

/-- The nearest double; what is beyond the largest stays beyond it. -/
def f64 (x : ℚ) : ℚ :=
  match Double.round x with
  | .fin y => y
  | .inf negative => if negative then -2^1024 else 2^1024
  | .nan => 0

/-- A span to the nearest nanosecond. -/
def nanos (x : ℚ) : ℚ := Double.halfEven (x*10^9)/10^9

/-- `Duration::from_secs_f64`, which panics on a span that is negative or has no room. -/
def fromSecs (x : ℚ) : Option ℚ := if 0 ≤ x ∧ x<2^64 then some (nanos x) else none

/-- `f64::clamp`, which panics when the bounds are the wrong way round. -/
def clamp (x lo hi : ℚ) : Option ℚ := if lo ≤ hi then some (max lo (min x hi)) else none

def new (rounded : ℚ → ℚ) (capacity perMinute now : ℚ) : RestRateLimiter :=
  ⟨rounded,capacity,rounded (perMinute/60),capacity,now,now,false,0,none⟩

variable (l : RestRateLimiter)

/-- `as_secs_f64`: the seconds and the nanoseconds of a span. -/
def asSecs (span : ℚ) : ℚ := l.rounded (l.rounded ⌊span⌋+l.rounded (Int.fract span))

def refill (now : ℚ) : RestRateLimiter :=
  let elapsed := l.asSecs (max (now-l.updatedAt) 0)
  { l with
    tokens := min (l.rounded (l.tokens+l.rounded (elapsed*l.refillPerSecond))) l.capacity
    updatedAt := now }

/-- The seconds in which the tokens that a weight lacks flow in. -/
def lack (weight : ℚ) : ℚ := l.rounded (l.rounded (weight-l.tokens)/l.refillPerSecond)

/-- `gate_at`: the verdict and the limiter after it. -/
def gateAt (weight now : ℚ) : RestGate × RestRateLimiter :=
  let l := l.refill now
  if now<l.blockedUntil then
    (if l.blockedByExchange then .banned (l.blockedUntil-now) else .wait (l.blockedUntil-now),l)
  else
    let l := { l with blockedByExchange := false }
    let weight := max 1 (min weight l.capacity)
    if weight ≤ l.tokens then (.ready,{ l with tokens := l.rounded (l.tokens-weight) })
    else (.wait (nanos (l.lack weight)),l)

/-- `rate_limited_for`. -/
def rateLimitedFor (now : ℚ) (banFor : Option ℚ) : RestRateLimiter :=
  let start := if l.lastLimited.any fun last => 300<now-last then 0 else l.backoffExp
  let exp := min (start+1) 6
  let honored := (banFor.map fun span => min (span+1) maxHonoredBan).getD 0
  let delay := max (2^(exp-1)) honored
  { l with
    backoffExp := exp
    lastLimited := some now
    blockedUntil := max l.blockedUntil (now+delay)
    blockedByExchange := true }

/-- `observe_used_weight`. -/
def observeUsedWeight (used now : ℚ) : RestRateLimiter :=
  if used<0 then l
  else
    let l := l.refill now
    { l with tokens := min l.tokens (max (l.rounded (l.capacity-used)) 0) }

/-- `gate_at` as it is when the capacity may be anything, with its panics. -/
def tryGateAt (weight now : ℚ) : Option (RestGate × RestRateLimiter) :=
  let l := l.refill now
  if now<l.blockedUntil then
    some (if l.blockedByExchange then .banned (l.blockedUntil-now) else .wait (l.blockedUntil-now),l)
  else
    let l := { l with blockedByExchange := false }
    (clamp weight 1 l.capacity).bind fun weight =>
      if weight ≤ l.tokens then some (.ready,{ l with tokens := l.rounded (l.tokens-weight) })
      else if l.refillPerSecond=0 then none
      else (fromSecs (l.lack weight)).map fun span => (.wait span,l)

/-- `rate_limited_for` with its panic: a second more than the span may be more than a `Duration` holds. -/
def tryRateLimitedFor (now : ℚ) (banFor : Option ℚ) : Option RestRateLimiter :=
  if ∃ span ∈ banFor, 2^64 ≤ span+1 then none else some (l.rateLimitedFor now banFor)

/-- The exchange is known to refuse requests. -/
def Banned (now : ℚ) : Prop := l.blockedByExchange=true ∧ now<l.blockedUntil

instance (now : ℚ) : Decidable (l.Banned now) := inferInstanceAs (Decidable (_ ∧ _))

/-- `configured_weight_per_minute`, from the number that the environment gives. -/
def configuredWeightPerMinute (value : Option ℚ) : ℚ := (value.filter fun budget => 0<budget).getD 720

/-- The limiter of the process. -/
def shared (value : Option ℚ) (now : ℚ) : RestRateLimiter :=
  .new f64 (configuredWeightPerMinute value) (configuredWeightPerMinute value) now

/-- The calls of the limiter, each with the instant its caller has read. -/
inductive Call
  | gate (weight now : ℚ)
  | observe (used now : ℚ)
  | limited (now : ℚ) (banFor : Option ℚ)
deriving DecidableEq

def Call.time : Call → ℚ
  | gate _ now => now
  | observe _ now => now
  | limited now _ => now

/-- The limiter after a call.  A panic poisons its lock, and every later call panics. -/
def after (l : Option RestRateLimiter) (c : Call) : Option RestRateLimiter :=
  l.bind fun l =>
    match c with
    | .gate weight now => (l.tryGateAt weight now).map Prod.snd
    | .observe used now => some (l.observeUsedWeight used now)
    | .limited now banFor => l.tryRateLimitedFor now banFor

/-- What `gate_at` answers, if it does not panic. -/
def answer (l : Option RestRateLimiter) (weight now : ℚ) : Option RestGate :=
  l.bind fun l => (l.tryGateAt weight now).map Prod.fst

/-- Where `acquire` is. -/
inductive Waiter
  | asking
  | asleep (wakeAt : ℚ)
  | ended (result : Except ℚ Unit)
  | panicked
deriving DecidableEq

/-- What `acquire` makes of an answer at an instant. -/
def Waiter.take (now : ℚ) : RestGate → Waiter
  | .ready => .ended (.ok ())
  | .banned remaining => .ended (.error remaining)
  | .wait span => if maxAcquireWait<span then .ended (.error span) else .asleep (now+span)

/-- The limiter and one `acquire`, with the calls there have been. -/
structure Acquiring where
  limiter : Option RestRateLimiter
  waiter : Waiter
  calls : List Call

/-- A call of somebody else, or a poll of the `acquire`. -/
inductive AcquireEvent
  | call (c : Call)
  | poll (now : ℚ)

def AcquireEvent.time : AcquireEvent → ℚ
  | call c => c.time
  | poll now => now

namespace Acquiring

def call (s : Acquiring) (c : Call) : Acquiring :=
  { s with limiter := after s.limiter c, calls := s.calls ++ [c] }

def ask (weight : ℚ) (s : Acquiring) (now : ℚ) : Acquiring :=
  { s.call (.gate weight now) with
    waiter := (answer s.limiter weight now).elim .panicked (Waiter.take now) }

def step (weight : ℚ) (s : Acquiring) : AcquireEvent → Acquiring
  | .call c => s.call c
  | .poll now =>
    match s.waiter with
    | .asking => s.ask weight now
    | .asleep wakeAt => if wakeAt ≤ now then s.ask weight now else s
    | _ => s

def start (l : RestRateLimiter) : Acquiring := ⟨some l,.asking,[]⟩

end Acquiring

end RestRateLimiter

/-- `parse_ban_remaining`: the span of a ban that a message gives as a moment in milliseconds. -/
def parseBanRemaining (payload : JsonBody) (nowMs : ℤ) : Option ℚ := do
  let tail ← Rust.after "banned until".toList (payload.msg.getD "").toList
  let digits := (Rust.trimStart (Rust.before "banned until".toList tail)).takeWhile Char.isDigit
  let untilMs ← Rust.decimal digits
  let remainingMs : ℚ := untilMs-nowMs
  if 0<remainingMs then some (remainingMs/1000) else none

/-- `parse_retry_after`. -/
def parseRetryAfter (header : Option String) : Option ℚ :=
  (header.bind fun value => Rust.parseUnsigned (2^64) (Rust.trim value.toList)).map fun seconds =>
    min (seconds : ℚ) RestRateLimiter.maxHonoredBan

end TradeGate
