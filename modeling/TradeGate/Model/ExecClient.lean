import TradeGate.Model.Contracts

/-! The gateway's client of execd: requests with timers, a queue for frames while there is no socket, one
subscription, and reconnects; and the server's replays on the connection. -/
namespace TradeGate

namespace ExecClient
open Execd

/-- What a frame asks for. -/
inductive Method
  | eventsSubscribe (sinceSeq : ℕ)
  | other (name : String) (params : Js.Value)

def Method.name : Method → String
  | eventsSubscribe _ => "exec.events.subscribe"
  | other name _ => name

structure Frame where
  id : ℕ
  method : Method

structure PendingRequest where
  method : String
  timeoutMs : ℕ

/-- How the promise of a call ends; `timeout` is an `ExecTimeout`. -/
inductive Outcome
  | result
  | rpcError
  | timeout (method : String) (timeoutMs : ℕ)
  | closed

/-- What the client does that others see: `socket.write`, and the end of a promise. -/
inductive Note
  | written (frame : Frame)
  | settled (id : ℕ) (outcome : Outcome)

/-- The subscription, with the number it started from, the calls of `onEvent` and the ids of the requests
that were made for it. -/
structure ActiveSubscription where
  sinceSeq : ℕ
  lastDeliveredSeq : ℕ
  duplicates : ℕ := 0
  outOfOrder : ℕ := 0
  delivered : List ExecEvent := []
  requests : List ℕ := []

/-- A socket that connects keeps what is written; one that is shut takes no frames, and its `close` is
still to come. -/
inductive Socket
  | connecting (buffered : List Frame)
  | ready (wire : List Frame)
  | shut

structure Options where
  defaultTimeoutMs : ℕ := 10000
  accountSnapshotTimeoutMs : ℕ := 30000

end ExecClient

open ExecClient Execd

/-- The client; `past` holds the subscriptions that have ended, whose handles remain. -/
structure ExecClient where
  options : Options := {}
  socket : Option Socket := some (.connecting [])
  nextId : ℕ := 1
  pending : List (ℕ × PendingRequest) := []
  writeQueue : List Frame := []
  subscription : Option ActiveSubscription := none
  past : List ActiveSubscription := []
  closed : Bool := false
  reconnectTimer : Bool := false
  log : List Note := []

namespace ExecClient

variable (c : ExecClient)

def timeoutFor (method : Method) : ℕ :=
  if method.name="exec.account.snapshot" then c.options.accountSnapshotTimeoutMs
  else c.options.defaultTimeoutMs

/-- `socket.write`. -/
def write (frame : Frame) : ExecClient :=
  { c with
    socket := c.socket.map fun s => match s with
      | .connecting buffered => .connecting (buffered++[frame])
      | .ready wire => .ready (wire++[frame])
      | .shut => .shut
    log := c.log++[.written frame] }

/-- A socket that connects is writable too. -/
def writable : Bool :=
  match c.socket with
  | some (.connecting _) | some (.ready _) => true
  | _ => false

def send (frame : Frame) : ExecClient :=
  if c.writable then c.write frame else { c with writeQueue := c.writeQueue++[frame] }

/-- A call after `close()` is rejected without a frame. -/
def call (method : Method) (timeoutMs : Option ℕ) : ExecClient :=
  if c.closed then c
  else
    let request := ⟨method.name,timeoutMs.getD (c.timeoutFor method)⟩
    { c with nextId := c.nextId+1, pending := c.pending++[(c.nextId,request)] }.send ⟨c.nextId,method⟩

def requestSubscribe (sinceSeq : ℕ) : ExecClient :=
  let next := c.call (.eventsSubscribe sinceSeq) none
  if c.closed then next
  else { next with subscription := next.subscription.map fun s =>
    { s with requests := s.requests++[c.nextId] } }

/-- One subscription at a time: a second one throws. -/
def subscribe (sinceSeq : ℕ) : ExecClient :=
  if c.subscription.isSome then c
  else { c with subscription := some ⟨sinceSeq,sinceSeq,0,0,[],[]⟩ }.requestSubscribe sinceSeq

/-- The handle of a subscription; it is told apart by how many came before it. -/
def unsubscribe (handle : ℕ) : ExecClient :=
  if handle=c.past.length then
    { c with subscription := none, past := c.past++c.subscription.toList }
  else c

def close : ExecClient :=
  { c with
    closed := true
    reconnectTimer := false
    log := c.log++c.pending.map fun p => .settled p.1 .closed
    pending := []
    writeQueue := []
    subscription := none
    past := c.past++c.subscription.toList
    socket := none }

/-- The timer of a request fires. -/
def timeout (id : ℕ) : ExecClient :=
  match c.pending.find? fun p => p.1=id with
  | some (_,request) =>
    { c with
      pending := c.pending.filter fun p => p.1 ≠ id
      log := c.log++[.settled id (.timeout request.method request.timeoutMs)] }
  | none => c

/-- `#connect`. -/
def connect : ExecClient := if c.closed then c else { c with socket := some (.connecting []) }

/-- The reconnect timer fires. -/
def retry : ExecClient :=
  if c.reconnectTimer then { c with reconnectTimer := false }.connect else c

/-- `'connect'`: what was kept goes out, then the queue, then the subscription is asked for again. -/
def onConnect : ExecClient :=
  match c.socket with
  | some (.connecting buffered) =>
    let queued := c.writeQueue
    let next := queued.foldl write { c with socket := some (.ready buffered), writeQueue := [] }
    match next.subscription with
    | some s => next.requestSubscribe s.lastDeliveredSeq
    | none => next
  | _ => c

/-- The socket takes no more frames and brings none: an error, the end of the stream, a broken frame. -/
def onShut : ExecClient := { c with socket := c.socket.map fun _ => .shut }

/-- `'close'`. -/
def onClose : ExecClient :=
  match c.socket with
  | some _ => { c with socket := none, reconnectTimer := true }
  | none => c

/-- The answer to a request. -/
def handleResponse (id : ℕ) (outcome : Outcome) : ExecClient :=
  if c.pending.any fun p => p.1=id then
    { c with
      pending := c.pending.filter fun p => p.1 ≠ id
      log := c.log++[.settled id outcome] }
  else c

def handleEvent (event : ExecEvent) : ExecClient :=
  { c with subscription := c.subscription.map fun s =>
    if event.seq ≤ s.lastDeliveredSeq then { s with duplicates := s.duplicates+1 }
    else if event.seq ≠ s.lastDeliveredSeq+1 then { s with outOfOrder := s.outOfOrder+1 }
    else { s with lastDeliveredSeq := event.seq, delivered := s.delivered++[event] } }

/-- Data comes in. -/
def receiving : Bool :=
  match c.socket with
  | some (.ready _) => true
  | _ => false

/-- The frames that the server has of this connection. -/
def wire : List Frame :=
  match c.socket with
  | some (.ready wire) => wire
  | _ => []

/-- A replay of the server: the request that it answers, and the last number that it has sent. -/
structure Replay where
  request : ℕ
  position : ℕ

/-- The client, and the replays that run on its connection. -/
structure World where
  client : ExecClient := {}
  replays : List Replay := []

/-- What may happen: calls of the gateway, events of the socket and the timers, an answer that is an
error or not, the server's start of a replay for a frame, and the next notification of a replay. -/
inductive Incident
  | call (method : Method) (timeoutMs : Option ℕ)
  | subscribe (sinceSeq : ℕ)
  | unsubscribe (handle : ℕ)
  | close
  | timeout (id : ℕ)
  | retry
  | connect
  | shut
  | closed
  | respond (id : ℕ) (ok : Bool)
  | serve (position : ℕ)
  | notify (replay : ℕ) (event : ExecEvent)

/-- The server starts a replay from the number that a frame asks for. -/
def World.serve (w : World) (position : ℕ) : World :=
  match w.client.wire[position]? with
  | some ⟨id,.eventsSubscribe sinceSeq⟩ => { w with replays := w.replays++[⟨id,sinceSeq⟩] }
  | _ => w

/-- A replay sends the event that comes next. -/
def World.notify (w : World) (replay : ℕ) (event : ExecEvent) : World :=
  match w.replays[replay]? with
  | some r =>
    if w.client.receiving=true ∧ event.seq=r.position+1 then
      ⟨w.client.handleEvent event,w.replays.set replay { r with position := event.seq }⟩
    else w
  | none => w

def World.step (w : World) : Incident → World
  | .call method timeoutMs => { w with client := w.client.call method timeoutMs }
  | .subscribe sinceSeq => { w with client := w.client.subscribe sinceSeq }
  | .unsubscribe handle => { w with client := w.client.unsubscribe handle }
  | .close => ⟨w.client.close,[]⟩
  | .timeout id => { w with client := w.client.timeout id }
  | .retry => { w with client := w.client.retry }
  | .connect => { w with client := w.client.onConnect }
  | .shut => { w with client := w.client.onShut }
  | .closed => ⟨w.client.onClose,[]⟩
  | .respond id ok => if w.client.receiving then
      { w with client := w.client.handleResponse id (if ok then .result else .rpcError) }
    else w
  | .serve position => w.serve position
  | .notify replay event => w.notify replay event

end ExecClient
end TradeGate
