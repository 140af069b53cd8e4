import TradeGate.Daemon.Rest
import TradeGate.Model.Closing

/-! From the daemon's errors to the receipts the runtime records.  The daemon answers each request
with one line; the gateway turns an error into a receipt, each operation in its own way. -/
namespace TradeGate
open Coop

/-- `DemoError`, and as a line of the protocol `RpcError`. -/
structure RpcError where
  kind : BinanceErrorKind
  message : String
  code : Option ℤ
  ambiguous : Bool
deriving DecidableEq

/-- `From<BinanceError> for DemoError`. -/
def RpcError.ofBinance (e : BinanceError) : RpcError :=
  ⟨e.kind,e.msg,e.code,decide (e.kind=.transport)⟩

structure DemoExecError where
  op : String
  err : RpcError
deriving DecidableEq

def DemoExecError.message (e : DemoExecError) : String :=
  e.op ++ ": " ++ e.err.kind.text ++ ": " ++ e.err.message

/-- How a call to the daemon ends. -/
inductive Delivery
  | notRunning
  | timedOut (ms : ℕ)
  | exited
  | line (s : Sending)
deriving DecidableEq

/-- `DemoBackend.call` of an operation that is one signed request. -/
def call (op : String) : Delivery → Except DemoExecError JsonBody
  | .notRunning => .error ⟨op,.transport,"demo-exec not running",none,false⟩
  | .timedOut ms => .error ⟨op,.transport,"timeout after " ++ toString ms ++ "ms",none,true⟩
  | .exited => .error ⟨op,.transport,"demo-exec exited",none,true⟩
  | .line s => (signedRequest s).mapError fun e => ⟨op,.ofBinance e⟩

/-- The average price of an order as the receipts carry it. -/
def averagePrice (p : Option String) : Option String :=
  let avg := Js.value (p.getD "0")
  if 0<avg then some (Js.toFixed avg 1) else none

/-- `DemoBackend.order`: entries, stops, take-profits and reductions. -/
def orderReceipt : Except DemoExecError JsonBody → OrderReceipt
  | .ok receipt =>
    ⟨if receipt.status=some "FILLED" then .filled else .submitted,averagePrice receipt.avgPrice,none⟩
  | .error e => ⟨if e.err.ambiguous then .unknown else .failed,none,some e.message⟩

/-- `DemoBackend.closePosition` when the daemon refused. -/
def closeRefused (e : DemoExecError) : CloseReceipt :=
  ⟨false,none,none,some ("Error: " ++ e.message)⟩

/-- The requests that are not idempotent. -/
inductive OrderRequest | entry | reduce | stop | takeProfit | close | cancel | cancelAll
deriving DecidableEq

def OrderRequest.op : OrderRequest → String
  | .close => "close_position"
  | .cancel => "cancel"
  | .cancelAll => "cancel_all"
  | _ => "place"

/-- What `executeOpen` records for the outcome of an entry. -/
def OrderOutcome.intentStatus : OrderOutcome → IntentStatus
  | .filled => .filled
  | .submitted => .submitted
  | .unknown => .unknown
  | .failed => .failed

/-- What `closeThreadNow` records for a close. -/
def closeStatus (proven : Bool) : IntentStatus := if proven then .filled else .failed

/-- The status the runtime records on the intent of a request whose call ended in an error; the
legs and cancels of a thread have no intent. -/
def OrderRequest.recorded (k : OrderRequest) (e : DemoExecError) : Option IntentStatus :=
  match k with
  | .entry => some (orderReceipt (.error e)).outcome.intentStatus
  | .reduce => some (orderReceipt (.error e)).outcome.reduceStatus
  | .close => some (closeStatus (closeRefused e).proven)
  | _ => none

end TradeGate

/-! Orders whose fate is not known.  Of the requests without a definite answer, those are reported
as unknown whose last attempt is classified as lost; an earlier class of the classification, or a
2xx response that cannot be read, hides the loss. -/
namespace TradeGate

/-- The request was sent, and what came back does not tell what became of it. -/
def Attempt.undetermined : Attempt → Prop
  | .sendFailed _ _ => True
  | .answered r => 500 ≤ r.status ∨ match r.body with
    | .json value => value.code=some (-1007)
    | _ => r.success
  | _ => False

/-- A definite success was read. -/
def Attempt.confirmed : Attempt → Prop
  | .answered r => r.success ∧ ∃ value, r.body=.json value ∧ value.code ≠ some (-1007)
  | _ => False

/-- The attempts a request makes. -/
def Sending.made (s : Sending) : List Attempt :=
  if ¬s.credentials then []
  else if s.first.skewed ∧ s.resynced then [s.first,s.second]
  else [s.first]

/-- The request was begun and no definite answer to it was read. -/
def Delivery.fateUnknown : Delivery → Prop
  | .notRunning => False
  | .timedOut _ => True
  | .exited => True
  | .line s => (∃ a ∈ s.made, a.undetermined) ∧ ¬s.last.confirmed

/-- The code a failure response is classified by. -/
def Response.readCode (r : Response) : Option ℤ :=
  match r.body with
  | .unreadable _ => none
  | _ => r.payload.code

/-- The attempt ended in a loss that no earlier class of the classification hides. -/
def Attempt.lost : Attempt → Prop
  | .sendFailed _ _ => True
  | .answered r => (500 ≤ r.status ∨ (¬r.success ∧ r.readCode=some (-1007))) ∧
      ¬BinanceErrorKind.Shadowed r.status r.readCode
  | _ => False

/-- The loss of a call, as far as the classification sees it. -/
def Delivery.lost : Delivery → Prop
  | .notRunning => False
  | .timedOut _ => True
  | .exited => True
  | .line s => s.credentials=true ∧ s.last.lost

/-- The gateway gets an ambiguous error, and records nothing but an unknown intent for it. -/
def ReportsUnknown (k : OrderRequest) (d : Delivery) : Prop :=
  ∃ e, call k.op d=.error e ∧ e.err.ambiguous=true ∧ ∀ st ∈ k.recorded e, st=.unknown

theorem Response.classify_success {r : Response} (h : r.success) :
    BinanceErrorKind.classify (some r.status) none ≠ .transport := by
  rw [Ne,BinanceErrorKind.classify_transport_iff]
  rintro ⟨h₁|h₁,-⟩
  · obtain ⟨-,h₂⟩ := h
    omega
  · cases h₁

/-- An attempt is classified as lost exactly as `Attempt.lost` says. -/
theorem execute_transport_iff {a : Attempt} :
    (∃ e, execute a=.error e ∧ e.kind=.transport) ↔ a.lost := by
  cases a with
  | heldBack w => simp [execute,BinanceError.ofLocalRateLimit,Attempt.lost]
  | connectFailed e => simp [execute,BinanceError.ofTransport,Attempt.lost]
  | sendFailed e t => simp [execute,BinanceError.ofTransport,Attempt.lost]
  | answered r =>
    by_cases hs : r.success
    · have h₅ : ¬500 ≤ r.status := by
        have := hs.2
        omega
      have hn := Response.classify_success hs
      cases hb : r.body <;>
        simp [execute,Attempt.lost,BinanceError.new,Response.readCode,hb,hs,hn,h₅]
    · cases hb : r.body <;>
        simp [execute,Attempt.lost,BinanceError.new,Response.readCode,hb,hs,
          BinanceErrorKind.classify_transport_iff]

/-- The error of a call is ambiguous exactly for a loss. -/
theorem call_ambiguous_iff {op : String} {d : Delivery} :
    (∃ e, call op d=.error e ∧ e.err.ambiguous=true) ↔ d.lost := by
  cases d with
  | notRunning => simp [call,Delivery.lost]
  | timedOut ms => simp [call,Delivery.lost]
  | exited => simp [call,Delivery.lost]
  | line s =>
    by_cases hc : s.credentials=true
    · rw [Delivery.lost,and_iff_right hc,← execute_transport_iff,call,signedRequest_last hc]
      cases execute s.last with
      | ok v => simp [Except.mapError]
      | error e => simp [Except.mapError,RpcError.ofBinance]
    · simp [call,signedRequest,hc,Delivery.lost,Except.mapError,RpcError.ofBinance,
        BinanceError.ofLocalReject]

/-- An ambiguous error is recorded as unknown for every request but a close. -/
theorem recorded_iff {k : OrderRequest} {e : DemoExecError} (h : e.err.ambiguous=true) :
    (∀ st ∈ k.recorded e, st=.unknown) ↔ k ≠ .close := by
  cases k <;> simp [OrderRequest.recorded,orderReceipt,h,OrderOutcome.intentStatus,
    OrderOutcome.reduceStatus,closeRefused,closeStatus,CloseReceipt.proven]

theorem reportsUnknown_iff {k : OrderRequest} {d : Delivery} :
    ReportsUnknown k d ↔ k ≠ .close ∧ d.lost := by
  rw [← @call_ambiguous_iff k.op d]
  constructor
  · rintro ⟨e,he,ha,hr⟩
    exact ⟨(recorded_iff ha).mp hr,e,he,ha⟩
  · rintro ⟨hk,e,he,ha⟩
    exact ⟨e,he,ha,(recorded_iff ha).mpr hk⟩

/-- A request of unknown fate is reported as unknown exactly when it is no close and its loss is
not hidden by an unreadable or empty 2xx response or by an earlier class. -/
theorem unknown_fate_reported_iff (k : OrderRequest) (d : Delivery) :
    (d.fateUnknown → ReportsUnknown k d) ↔ (d.fateUnknown → k ≠ .close ∧ d.lost) :=
  imp_congr_right fun _ => reportsUnknown_iff

/-- An entry that the exchange accepted with a body the client cannot parse. -/
def garbledEntry : Delivery :=
  .line ⟨true,.answered ⟨200,"200 OK",.notJson "expected value at line 1 column 1"⟩,false,.heldBack 1⟩

theorem garbled_entry_reported_failed :
    ¬∀ (k : OrderRequest) (d : Delivery), d.fateUnknown → ReportsUnknown k d := by
  intro hall
  have hf : garbledEntry.fateUnknown := by
    simp [garbledEntry,Delivery.fateUnknown,Sending.made,Sending.last,Attempt.skewed,
      Attempt.undetermined,Attempt.confirmed,Response.success]
  obtain ⟨e,he,ha,-⟩ := hall .entry garbledEntry hf
  have hl := call_ambiguous_iff.mp ⟨e,he,ha⟩
  simp [garbledEntry,Delivery.lost,Sending.last,Attempt.skewed,Attempt.lost,Response.success] at hl

end TradeGate
