import Mathlib.Data.Nat.Notation
import Mathlib.Data.Int.Notation
import Mathlib.Data.Option.Basic
import Mathlib.Tactic.Common

/-! The REST client of the execution daemon: one signed request that is not idempotent, what the
network and the exchange do with it, and the class of error it ends in. -/
namespace TradeGate

/-- Classes of failure; the order is the priority of `classify`. -/
inductive BinanceErrorKind | localReject | unauthorized | clockSkew | rateLimited | transport | rejected
deriving DecidableEq

namespace BinanceErrorKind

/-- The class of an HTTP status and an exchange code. -/
def classify (status : Option ℕ) (code : Option ℤ) : BinanceErrorKind :=
  if code=some (-1021) ∨ code=some (-1022) then .clockSkew
  else if (code=some (-2015) ∨ code=some (-2014)) ∨ (status=some 401 ∨ status=some 403) then
    .unauthorized
  else if (status=some 418 ∨ status=some 429) ∨ code=some (-1003) then .rateLimited
  else if code=some (-1007) ∨ ∃ s ∈ status, 500 ≤ s then .transport
  else if code.isSome ∨ status.isSome then .rejected
  else .transport

def text : BinanceErrorKind → String
  | localReject => "local_reject"
  | unauthorized => "unauthorized"
  | clockSkew => "clock_skew"
  | rateLimited => "rate_limited"
  | transport => "transport"
  | rejected => "rejected"

/-- A code or a status that is classified before a lost response is looked for. -/
def Shadowed (status : ℕ) (code : Option ℤ) : Prop :=
  code=some (-1021) ∨ code=some (-1022) ∨ code=some (-2015) ∨ code=some (-2014) ∨
    code=some (-1003) ∨ status=401 ∨ status=403 ∨ status=418 ∨ status=429

instance (status : ℕ) (code : Option ℤ) : Decidable (Shadowed status code) :=
  inferInstanceAs (Decidable (_ ∨ _))

theorem classify_transport_iff {status : ℕ} {code : Option ℤ} :
    classify (some status) code=.transport ↔
      (500 ≤ status ∨ code=some (-1007)) ∧ ¬Shadowed status code := by
  unfold classify Shadowed
  simp only [Option.some.injEq,Option.mem_def,exists_eq_left']
  split_ifs <;> simp_all <;> tauto

theorem classify_clockSkew_iff {status : Option ℕ} {code : Option ℤ} :
    classify status code=.clockSkew ↔ code=some (-1021) ∨ code=some (-1022) := by
  unfold classify
  split_ifs <;> simp_all

end BinanceErrorKind

/-- The fields of a JSON answer that the client and the gateway read. -/
structure JsonBody where
  code : Option ℤ
  msg : Option String
  status : Option String
  avgPrice : Option String
deriving DecidableEq

def JsonBody.empty : JsonBody := ⟨none,none,none,none⟩

/-- The body of a response: it cannot be read, is blank, is JSON, or is some other text. -/
inductive Body
  | unreadable (error : String)
  | blank
  | json (value : JsonBody)
  | notJson (error : String)
deriving DecidableEq

structure Response where
  status : ℕ
  reason : String
  body : Body
deriving DecidableEq

/-- `status.is_success()`. -/
def Response.success (r : Response) : Prop := 200 ≤ r.status ∧ r.status<300

instance (r : Response) : Decidable r.success := inferInstanceAs (Decidable (_ ∧ _))

/-- The JSON a failure response is read as; any other text is replaced by the status. -/
def Response.payload (r : Response) : JsonBody :=
  match r.body with
  | .json value => value
  | _ => ⟨some r.status,some r.reason,none,none⟩

inductive Payload
  | localReject (kind : String)
  | transportAmbiguous (ambiguous : Bool)
  | localRateLimit (retryAfterSeconds : ℕ)
  | body (value : JsonBody)
deriving DecidableEq

structure BinanceError where
  status : Option ℕ
  code : Option ℤ
  msg : String
  kind : BinanceErrorKind
  payload : Payload
deriving DecidableEq

namespace BinanceError

def new (status : Option ℕ) (code : Option ℤ) (msg : String) (payload : Payload) : BinanceError :=
  ⟨status,code,msg,.classify status code,payload⟩

/-- The request was not sent. -/
def ofLocalReject (kind msg : String) : BinanceError := ⟨none,none,msg,.localReject,.localReject kind⟩

/-- A failure of the transport; it is unambiguous when no connection was made. -/
def ofTransport (msg : String) (ambiguous : Bool) : BinanceError :=
  ⟨none,none,msg,if ambiguous then .transport else .localReject,.transportAmbiguous ambiguous⟩

def ofLocalRateLimit (waitSeconds : ℕ) : BinanceError :=
  ⟨some 429,some (-1003),"本地限频保护:币安 IP 额度不足,约 " ++ toString waitSeconds ++ " 秒后可重试",
    .rateLimited,.localRateLimit waitSeconds⟩

end BinanceError

/-- What becomes of one attempt to send a request. -/
inductive Attempt
  | heldBack (waitSeconds : ℕ)
  | connectFailed (error : String)
  | sendFailed (error : String) (timedOut : Bool)
  | answered (r : Response)
deriving DecidableEq

/-- `execute` for a method that is sent once. -/
def execute : Attempt → Except BinanceError JsonBody
  | .heldBack wait => .error (.ofLocalRateLimit (max wait 1))
  | .connectFailed error =>
    .error (.ofTransport ("币安网络错误:" ++ error ++
      "(到币安的连接被重置/握手失败,已自动重试仍不通;与 API key 无关。若依赖代理上网请确认代理可用)") false)
  | .sendFailed error timedOut =>
    .error (.ofTransport ("币安网络错误:" ++ error ++
      (if timedOut then "(请求超时;发送状态未知,必须按 clientOrderId 回查)" else "")) true)
  | .answered r =>
    match r.body with
    | .unreadable error =>
      .error (.new (some r.status) none ("币安响应读取失败:" ++ error) (.transportAmbiguous true))
    | body =>
      if ¬r.success then
        let message := (r.payload.msg.filter fun m => m ≠ "").getD
          ("Binance HTTP " ++ toString r.status)
        .error (.new (some r.status) r.payload.code message (.body r.payload))
      else
        match body with
        | .json value => .ok value
        | .notJson error =>
          .error (.new (some r.status) none ("币安响应 JSON 无效:" ++ error) (.transportAmbiguous true))
        | _ => .ok .empty

/-- A signed request: the first attempt, whether the clock could be synchronised after a skew,
and the attempt after that. -/
structure Sending where
  credentials : Bool
  first : Attempt
  resynced : Bool
  second : Attempt
deriving DecidableEq

/-- `signed_request`: signed again exactly once after a clock skew. -/
def signedRequest (s : Sending) : Except BinanceError JsonBody :=
  if ¬s.credentials then .error (.ofLocalReject "credentials_missing"
    ("缺少主账户 API key/secret:设置 TG_MAIN_API_KEY/TG_MAIN_API_SECRET 或写入 " ++
      "~/.trading-swarm/secrets/apikey-main.json"))
  else
    match execute s.first with
    | .ok value => .ok value
    | .error original =>
      if original.kind=.clockSkew then
        if s.resynced then execute s.second else .error original
      else .error original

/-- The answer names a skewed clock. -/
def Attempt.skewed : Attempt → Prop
  | .answered r => ¬r.success ∧ (∀ e, r.body ≠ .unreadable e) ∧
      (r.payload.code=some (-1021) ∨ r.payload.code=some (-1022))
  | _ => False

instance (a : Attempt) : Decidable a.skewed := by
  unfold Attempt.skewed
  cases a with
  | answered r =>
    have : Decidable (∀ e, r.body ≠ .unreadable e) := by
      cases hb : r.body with
      | unreadable e => exact .isFalse fun h => h e rfl
      | blank => exact .isTrue (by simp)
      | json v => exact .isTrue (by simp)
      | notJson e => exact .isTrue (by simp)
    exact inferInstanceAs (Decidable (_ ∧ _ ∧ _))
  | _ => exact .isFalse id

theorem execute_clockSkew_iff {a : Attempt} :
    (∃ e, execute a=.error e ∧ e.kind=.clockSkew) ↔ a.skewed := by
  cases a with
  | heldBack w => simp [execute,BinanceError.ofLocalRateLimit,Attempt.skewed]
  | connectFailed e => simp [execute,BinanceError.ofTransport,Attempt.skewed]
  | sendFailed e t => simp [execute,BinanceError.ofTransport,Attempt.skewed]
  | answered r =>
    have hnone : BinanceErrorKind.classify (some r.status) none ≠ .clockSkew := by
      simp [Ne,BinanceErrorKind.classify_clockSkew_iff]
    by_cases hs : r.success
    · cases hb : r.body <;> simp [execute,Attempt.skewed,BinanceError.new,hb,hs,hnone]
    · cases hb : r.body <;>
        simp [execute,Attempt.skewed,BinanceError.new,hb,hs,hnone,
          BinanceErrorKind.classify_clockSkew_iff]

/-- The attempt a signed request ends with. -/
def Sending.last (s : Sending) : Attempt :=
  if s.first.skewed ∧ s.resynced then s.second else s.first

theorem signedRequest_last {s : Sending} (h : s.credentials) : signedRequest s=execute s.last := by
  unfold signedRequest Sending.last
  rw [if_neg (not_not.mpr h)]
  cases hf : execute s.first with
  | ok value =>
    have hn : ¬s.first.skewed := fun hk => by
      obtain ⟨e,he,-⟩ := execute_clockSkew_iff.mpr hk
      rw [hf] at he
      cases he
    rw [if_neg (fun hk => hn hk.1),hf]
  | error e =>
    have hk : s.first.skewed ↔ e.kind=.clockSkew := by
      rw [← execute_clockSkew_iff,hf]
      simp
    by_cases h₁ : e.kind=.clockSkew
    · by_cases h₂ : s.resynced
      · simp [h₁,h₂,hk]
      · simp [h₁,h₂,hf]
    · simp [h₁,hk,hf]

end TradeGate
