import Mathlib.Data.List.Basic
import Mathlib.Data.Nat.Notation
import Mathlib.Data.Option.Basic

/-! The queue of model calls: one job runs at a time, jobs are told apart by their keys, and a priority
job goes to the head of the pending list. -/
namespace TradeGate

inductive JobKind | scan | review | info | chat | manual
deriving DecidableEq

/-- What the user wrote, numbered by its place among all messages. -/
structure ChatTurn where
  number : ℕ
  session : String
  text : String
deriving DecidableEq

/-- A queued call; `turn` is what a chat job runs. -/
structure Job where
  key : String
  kind : JobKind
  symbol : Option String
  turn : Option ChatTurn
deriving DecidableEq

/-- `started` is not part of the source: it lists the jobs whose `run` was called, in order. -/
structure BrainQueue where
  pending : List Job
  running : Option Job
  started : List Job
deriving DecidableEq

namespace BrainQueue

def empty : BrainQueue := ⟨[],none,[]⟩

/-- Starts the next pending job unless one is running. -/
def drain (q : BrainQueue) : BrainQueue :=
  match q.running, q.pending with
  | some _, _ => q
  | none, [] => q
  | none, next::rest => ⟨rest,some next,q.started ++ [next]⟩

def isBusy (q : BrainQueue) (key : String) : Prop :=
  (∃ j ∈ q.running, j.key=key) ∨ ∃ j ∈ q.pending, j.key=key

instance (q : BrainQueue) (key : String) : Decidable (q.isBusy key) :=
  inferInstanceAs (Decidable (_ ∨ _))

/-- False when a job with the key is queued or running. -/
def enqueue (q : BrainQueue) (job : Job) (priority : Bool) : Bool × BrainQueue :=
  if q.isBusy job.key then (false,q)
  else (true,
    { q with pending := if priority then job::q.pending else q.pending ++ [job] : BrainQueue }.drain)

/-- The running job has returned or thrown. -/
def settle (q : BrainQueue) : BrainQueue :=
  match q.running with
  | none => q
  | some _ => { q with running := none : BrainQueue }.drain

/-- `sendChat` at the time `now`; `number` tells the messages apart. -/
def sendChat (q : BrainQueue) (now number : ℕ) (session text : String) : Bool × BrainQueue :=
  q.enqueue ⟨"chat:" ++ toString now,.chat,none,some ⟨number,session,text⟩⟩ true

end BrainQueue
end TradeGate

/-! `BrainQueue` with its callbacks.  `onChange` and the first part of a job's `run` are code of others
that is called in the middle of `enqueue` and `drain` and may enqueue again, so the calls that have not
returned are kept as a stack; that code is taken to return, and `run` may throw.

`accepted` and `started` are not part of the source: they list the jobs that `enqueue` accepted and the
jobs whose `run` was called. -/
namespace TradeGate.QueueStack

/-- A call that waits for the code of others. -/
inductive Frame (J : Type)
  /-- `enqueue` in `onChange`; `drain` follows. -/
  | enqueued
  /-- `drain` in `onChange`; the call of `run` follows. -/
  | starting (job : J)
  /-- `drain` in the first part of `run`. -/
  | inRun (job : J)
  /-- The `finally` of `drain` in `onChange`; `drain` follows. -/
  | finished
  /-- `progress` in `onChange`. -/
  | progressed
deriving DecidableEq

/-- `suspended` holds the jobs whose promises `drain` awaits. -/
structure State (J : Type) where
  pending : List J
  running : Option J
  stack : List (Frame J)
  suspended : List J
  accepted : List J
  started : List J
deriving DecidableEq

variable {J κ : Type}

namespace State

def empty : State J := ⟨[],none,[],[],[],[]⟩

/-- `drain` up to its `onChange`. -/
def drain (s : State J) : State J :=
  match s.running, s.pending with
  | some _, _ => s
  | none, [] => s
  | none, next::rest =>
    { s with pending := rest, running := some next, stack := .starting next::s.stack }

/-- The `finally` of `drain` up to its `onChange`. -/
def finish (s : State J) : State J := { s with running := none, stack := .finished::s.stack }

/-- `enqueue` up to its `onChange`, with what it is going to return. -/
def enqueue [DecidableEq κ] (key : J → κ) (s : State J) (job : J) (priority : Bool) :
    Bool × State J :=
  if (s.running.any fun j => key j=key job) || s.pending.any fun j => key j=key job then (false,s)
  else (true,{ s with
    pending := if priority then job::s.pending else s.pending ++ [job]
    stack := .enqueued::s.stack
    accepted := s.accepted ++ [job] })

/-- The code of others that was called last returns. -/
def ret (s : State J) : Option (State J) :=
  match s.stack with
  | [] => none
  | .enqueued::stack => some { s with stack := stack : State J }.drain
  | .starting job::stack =>
    some { s with stack := .inRun job::stack, started := s.started ++ [job] }
  | .inRun job::stack => some { s with stack := stack, suspended := job::s.suspended }
  | .finished::stack => some { s with stack := stack : State J }.drain
  | .progressed::stack => some { s with stack := stack }

/-- `run` throws before it returns a promise. -/
def throw (s : State J) : Option (State J) :=
  match s.stack with
  | .inRun _::stack => some { s with stack := stack : State J }.finish
  | _ => none

/-- The promise of a job is resolved or rejected; the code after `await` runs when no call is under
way. -/
def settle (s : State J) (i : ℕ) : Option (State J) :=
  match s.stack with
  | [] => if i<s.suspended.length then
      some { s with suspended := s.suspended.eraseIdx i : State J }.finish else none
  | _::_ => none

end State

/-- What can happen next.  The calls of `enqueue` and `progress` come from outside when the stack is
empty, else from the code that was called last. -/
inductive Event (J : Type)
  | enqueue (job : J) (priority : Bool)
  | progress
  | ret
  | throw
  | settle (i : ℕ)
deriving DecidableEq

/-- No new call but a callback that returns, or a job that ends. -/
def Event.Ends : Event J → Prop
  | .enqueue _ _ => False
  | .progress => False
  | .ret => True
  | .throw => True
  | .settle _ => True

section
variable [DecidableEq κ] (key : J → κ)

def State.step (s : State J) : Event J → Option (State J)
  | .enqueue job priority => some (s.enqueue key job priority).2
  | .progress => some { s with stack := .progressed::s.stack }
  | .ret => s.ret
  | .throw => s.throw
  | .settle i => s.settle i

def State.run (s : State J) (events : List (Event J)) : Option (State J) :=
  events.foldlM (State.step key) s

end

namespace Frame

/-- The job that `drain` has taken and not finished. -/
def job : Frame J → Option J
  | .starting j => some j
  | .inRun j => some j
  | .enqueued => none
  | .finished => none
  | .progressed => none

/-- The job whose `run` is called when the frame goes on. -/
def next : Frame J → Option J
  | .starting j => some j
  | .inRun _ => none
  | .enqueued => none
  | .finished => none
  | .progressed => none

/-- `drain` is called when the frame goes on. -/
def Drains (f : Frame J) : Prop := f=.enqueued ∨ f=.finished

end Frame

namespace State

/-- The jobs that were taken and are not finished. -/
def active (s : State J) : List J := s.stack.filterMap Frame.job ++ s.suspended

/-- The jobs whose `run` has not been called. -/
def unstarted (s : State J) : List J := s.stack.filterMap Frame.next ++ s.pending

/-- A `drain` is on its way. -/
def Scheduled (s : State J) : Prop := ∃ f ∈ s.stack, f.Drains

/-- No call is under way and no job is running. -/
def Idle (s : State J) : Prop := s.stack=[] ∧ s.running=none

end State
end TradeGate.QueueStack
