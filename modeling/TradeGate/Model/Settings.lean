import TradeGate.Machine.Run
import TradeGate.Model.Confirm
import TradeGate.Model.Workflow

/-! Changes of the workflow: at once from the form and, for some keys, from the chat; for other keys
the chat can only propose a patch, which the user confirms with a one-time token or rejects. -/
namespace TradeGate.Settings
open Js

def directWorkflowKeys : List String :=
  ["narrate","info_every_ms","heartbeat_every_ms","review_every_close","scan_mode","fast_move_pct"]

def proposalWorkflowKeys : List String :=
  ["watchlist","watch_only","timeframe","playbook_text","brain","brain_model","cheap_brain",
    "cheap_brain_model"]

/-- The part of a chat's patch that takes effect at once: a pause does, its end does not. -/
def isDirect (k : String) (v : Value) : Prop :=
  k ∈ directWorkflowKeys ∨ k ∉ proposalWorkflowKeys ∧ k="paused" ∧ v=.bool true

/-- The part of a chat's patch that waits for the user. -/
def isProposal (k : String) (v : Value) : Prop :=
  k ∉ directWorkflowKeys ∧ (k ∈ proposalWorkflowKeys ∨ k="paused" ∧ v ≠ .bool true)

instance (k : String) (v : Value) : Decidable (isDirect k v) :=
  inferInstanceAs (Decidable (_ ∨ _ ∧ _ ∧ _))

instance (k : String) (v : Value) : Decidable (isProposal k v) :=
  inferInstanceAs (Decidable (_ ∧ (_ ∨ _ ∧ _)))

structure Split where
  direct : Patch
  proposal : Patch
  refused : List String

def splitWorkflowPatch (patch : Patch) : Split where
  direct := patch.filter fun f => isDirect f.1 f.2
  proposal := patch.filter fun f => isProposal f.1 f.2
  refused := (patch.filter fun f => ¬isDirect f.1 f.2 ∧ ¬isProposal f.1 f.2).map Prod.fst

inductive ProposalStatus | pending | applied | rejected | expired
deriving DecidableEq

def ProposalStatus.text : ProposalStatus → String
  | pending => "pending"
  | applied => "applied"
  | rejected => "rejected"
  | expired => "expired"

structure WorkflowProposal where
  id : String
  createdAt : ℕ
  expiresAt : ℕ
  status : ProposalStatus
  sessionId : Option String
  patch : Patch
  before : List (String × Value)
  after : List (String × Value)
  errors : List String
  resolvedAt : Option ℕ
  /-- The workflow the patch was tried on; the program does not keep it. -/
  triedOn : Workflow

/-- Expired, if it is too old to be confirmed. -/
def WorkflowProposal.aged (p : WorkflowProposal) (now : ℕ) : WorkflowProposal :=
  if p.status=.pending ∧ p.expiresAt ≤ now then { p with status := .expired, resolvedAt := some now }
  else p

theorem WorkflowProposal.id_aged (p : WorkflowProposal) (now : ℕ) : (p.aged now).id=p.id := by
  unfold aged
  split <;> rfl

/-- The proposal once its patch was applied, with the errors of that. -/
def WorkflowProposal.resolved (p : WorkflowProposal) (errors : List String) (now : ℕ) :
    WorkflowProposal :=
  { p with
    status := if errors=[] then .applied else .rejected
    errors := errors
    resolvedAt := some now }

def proposalTtlMs : ℕ := 30*60000

structure State where
  runtime : Runtime
  workflow : Workflow
  proposals : Keyed.Table WorkflowProposal.id

/-- The values that the workflow has under the keys of a patch. -/
def valuesAt (w : Workflow) (patch : Patch) : List (String × Value) := patch.map fun f => (f.1,w f.1)

/-- The keys with another value, but for the time stamp. -/
def changedKeys (next current : Workflow) : List String :=
  workflowKeys.filter fun k => k ≠ "updated_at" ∧ next k ≠ current k

namespace State

/-- `setWorkflow`: every valid key is applied and the errors are reported; `execution` names the
backend that runs, whatever the patch says. -/
def setWorkflow (s : State) (patch : Patch) : Except String (List String × State) := do
  let p ← applyWorkflowPatch s.workflow patch s.runtime.now
  let next := Function.update p.next "execution" (.str s.runtime.backend.text)
  return (p.errors,if changedKeys next s.workflow=[] then s else { s with workflow := next })

/-- `proposeWorkflow`: the patch is tried on the current workflow, and kept with what it would change. -/
def proposeWorkflow (s : State) (patch : Patch) (id : String) (sessionId : Option String) :
    Except String State := do
  let preview ← applyWorkflowPatch s.workflow patch s.runtime.now
  let now := s.runtime.now
  let p : WorkflowProposal :=
    { id := id
      createdAt := now
      expiresAt := now+proposalTtlMs
      status := if preview.errors=[] then .pending else .rejected
      sessionId := sessionId
      patch := patch
      before := valuesAt s.workflow patch
      after := valuesAt preview.next patch
      errors := preview.errors
      resolvedAt := if preview.errors=[] then none else some now
      triedOn := s.workflow }
  return { s with proposals := s.proposals.upsert p }

/-- `set_workflow` of the chat; a patch whose direct part throws proposes nothing. -/
def chatSetWorkflow (s : State) (patch : Patch) (id : String) (sessionId : Option String) : State :=
  let parts := splitWorkflowPatch patch
  match if parts.direct=[] then .ok ([],s) else s.setWorkflow parts.direct with
  | .error _ => s
  | .ok (_,s) =>
    match if parts.proposal=[] then .ok s else s.proposeWorkflow parts.proposal id sessionId with
    | .error _ => s
    | .ok s => s

def saveProposal (s : State) (p : WorkflowProposal) : State :=
  { s with proposals := s.proposals.upsert p }

/-- `workflowProposals`: proposals that were not confirmed in time expire when they are listed. -/
def workflowProposals (s : State) : State :=
  { s with proposals := s.proposals.mapRows (·.aged s.runtime.now) fun p => p.id_aged _ }

/-- The pending proposal with the id. -/
def pendingProposal (s : State) (id : String) : Except String WorkflowProposal :=
  match s.proposals.lookup id with
  | none => .error "proposal not found"
  | some p =>
    if p.status ≠ .pending then .error ("proposal is " ++ p.status.text)
    else if p.expiresAt ≤ s.runtime.now then .error "proposal is expired"
    else .ok p

variable [Host]

/-- What a token for the proposal is bound to, given the values under its keys. -/
def printOf (p : WorkflowProposal) (current : List (String × Value)) : String :=
  String.ofList ((Host.sha256Hex (Value.obj
    [("id",.str p.id),("patch",.obj p.patch),("current",.obj current)]).jsonText).toList.take 24)

def proposalFingerprint (s : State) (p : WorkflowProposal) : String :=
  printOf p (valuesAt s.workflow p.patch)

/-- `issueProposalConfirmation`. -/
def issueProposalConfirmation (s : State) (id : String) : Except String State := do
  let p ← s.pendingProposal id
  return { s with
    runtime := (s.runtime.issueToken .workflowProposal p.id (s.proposalFingerprint p)).2 }

omit [Host] in
/-- The patch of a confirmed proposal is applied to the workflow as it is by then. -/
def applyConfirmed (s : State) (p : WorkflowProposal) : Except String WorkflowProposal × State :=
  match s.setWorkflow p.patch with
  | .error e => (.error e,s)
  | .ok (errors,s) =>
    let p := p.resolved errors s.runtime.now
    (.ok p,s.saveProposal p)

/-- `applyWorkflowProposal`: the token is consumed first. -/
def applyWorkflowProposal (s : State) (id : String) (nonce : Option String) :
    Except String WorkflowProposal × State :=
  match s.pendingProposal id with
  | .error e => (.error e,s)
  | .ok p =>
    let c := s.runtime.consumeToken nonce .workflowProposal p.id (s.proposalFingerprint p)
    let s := { s with runtime := c.2 }
    match c.1 with
    | .error e => (.error e,s)
    | .ok _ => s.applyConfirmed p

omit [Host] in
/-- `rejectWorkflowProposal`. -/
def rejectWorkflowProposal (s : State) (id : String) : Except String State :=
  match s.proposals.lookup id with
  | none => .error "proposal not found"
  | some p => .ok (if p.status=.pending then
      s.saveProposal { p with status := .rejected, resolvedAt := some s.runtime.now } else s)

end State

/-- What happens to the workflow and its proposals. -/
inductive Event
  | chat (patch : Patch) (id : String) (sessionId : Option String)
  | form (patch : Patch)
  | switched (kind : Backend)
  | list
  | issue (id : String)
  | apply (id : String) (nonce : Option String)
  | reject (id : String)
  | wait (ms : ℕ)

/-- The state after an event; one that throws leaves the state it threw in. -/
def step [Host] (s : State) : Event → State
  | .chat patch id sessionId => s.chatSetWorkflow patch id sessionId
  | .form patch => match s.setWorkflow patch with
    | .ok r => r.2
    | .error _ => s
  | .switched kind =>
    let s := { s with runtime := { s.runtime with backend := kind } }
    match s.setWorkflow [("execution",.str kind.text)] with
    | .ok r => r.2
    | .error _ => s
  | .list => s.workflowProposals
  | .issue id => (s.issueProposalConfirmation id).toOption.getD s
  | .apply id nonce => (s.applyWorkflowProposal id nonce).2
  | .reject id => (s.rejectWorkflowProposal id).toOption.getD s
  | .wait ms => { s with runtime := { s.runtime with now := s.runtime.now+ms } }

/-- The settings when the gateway starts on a stored workflow: `execution` names its backend. -/
def boot (runtime : Runtime) (stored : Workflow) : State where
  runtime := { runtime with confirmations := [] }
  workflow := Function.update stored "execution" (.str runtime.backend.text)
  proposals := .empty

end TradeGate.Settings
