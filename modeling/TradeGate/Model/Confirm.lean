import TradeGate.Js.Value
import TradeGate.Model.Runtime

/-! One-time confirmations: a token is bound to its target and to a fingerprint of what the user was
shown, expires, and is deleted when it is used. -/
namespace TradeGate

def confirmTtlMs : ℕ := 120000

section
variable [Host]

def fingerprintOf (fields : List (String × Option String)) : String :=
  String.ofList ((Host.sha256Hex (Js.jsonObject fields)).toList.take 24)

/-- What the user confirms when approving an intent. -/
def DemoIntent.printed (i : DemoIntent) : List (String × Option String) :=
  [("id",some i.id),("kind",some i.kind.text),("symbol",some i.symbol),
    ("direction",some i.direction.text),("quantity",some i.quantity),("entry",some i.entry.text),
    ("limit_price",i.limitPrice),("stop_price",i.stopPrice),
    ("take_profit_price",i.takeProfitPrice),("status",some i.status.text),
    ("backend",some i.backend.text)]

def intentFingerprint (i : DemoIntent) : String := fingerprintOf i.printed

end

namespace Runtime

/-- Drops the tokens that have expired. -/
def sweepTokens (s : Runtime) : Runtime :=
  { s with confirmations := s.confirmations.filter fun t => s.now<t.expiresAt }

/-- `ConfirmationStore.issue`. -/
def issueToken [Host] (s : Runtime) (kind : ConfirmKind) (targetId fingerprint : String) :
    ConfirmToken × Runtime :=
  let s := s.sweepTokens
  let token : ConfirmToken :=
    { nonce := Host.id "nonce" (s.confirmations.map ConfirmToken.nonce)
      kind := kind
      targetId := targetId
      fingerprint := fingerprint
      issuedAt := s.now
      expiresAt := s.now+confirmTtlMs }
  (token,{ s with confirmations := s.confirmations ++ [token] })

/-- `ConfirmationStore.consume`: a token is deleted when it is used, and only then. -/
def consumeToken (s : Runtime) (nonce : Option String) (kind : ConfirmKind)
    (targetId fingerprint : String) : Except String Unit × Runtime :=
  match nonce.filter fun n => n ≠ "" with
  | none => (.error "需要先取确认 token(界面上点一下)",s)
  | some n =>
    match s.confirmations.find? fun t => t.nonce=n with
    | none => (.error "确认 token 不存在或已用过",s.sweepTokens)
    | some t =>
      if t.expiresAt ≤ s.now then (.error "确认 token 已过期(120 秒),请重新点",s.sweepTokens)
      else if t.kind ≠ kind ∨ t.targetId ≠ targetId then
        (.error "确认 token 不是给这个对象的",s.sweepTokens)
      else if t.fingerprint ≠ fingerprint then
        (.error "对象内容在你点确认之后变了,请重新看一遍再点",s.sweepTokens)
      else
        let s := s.sweepTokens
        (.ok (),{ s with confirmations := s.confirmations.filter fun t => t.nonce ≠ n })

variable [Host]

/-- `issueIntentConfirmation`: the token for a pending intent. -/
def issueIntentConfirmation (s : Runtime) (intentId : String) :
    Except String (ConfirmToken × Runtime) :=
  match s.intent intentId with
  | none => .error "intent not found"
  | some intent =>
    if intent.status ≠ .pendingApproval then .error ("intent is " ++ intent.status.text)
    else .ok (s.issueToken .intent intent.id (intentFingerprint intent))

end Runtime
end TradeGate
