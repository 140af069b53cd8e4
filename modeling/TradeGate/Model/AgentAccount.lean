import Mathlib.Algebra.Order.Ring.Rat
import TradeGate.Machine.Run

/-! The account reads of the agent backend: the view it caches, the read its callers share, and the
writes that drop the view.  A read is one run of the CLI, which comes back whenever it does. -/
namespace TradeGate.AgentMcpBackend

/-- How long a view is served, in milliseconds: while trading, and when nothing is open. -/
structure Ttls where
  accountTtlMs : ℚ := 300000
  idleTtlMs : ℚ := 900000

/-- A view in the cache, by the moment at which the run that read it was started. -/
structure CachedView where
  cachedAt : ℚ
  run : ℕ
deriving DecidableEq

/-- A run of the CLI that reads the account.  `account()` shares its promise with its callers;
`netCheck` keeps its own. -/
structure AccountRun where
  startedAt : ℕ
  shared : Bool
deriving DecidableEq

/-- A call of `account()` and the run that serves it: the call yields what the run read, or throws
when the run does. -/
structure AccountCall where
  calledAt : ℕ
  run : ℕ
deriving DecidableEq

/-- The backend, with a count of what happened, the calls of `account()`, and the moments at which
writes returned. -/
structure Reads where
  accountCache : Option CachedView := none
  accountInFlight : Option ℕ := none
  reading : List AccountRun := []
  reducing : ℕ := 0
  writing : ℕ := 0
  clock : ℕ := 0
  calls : List AccountCall := []
  returned : List ℕ := []

inductive Event
  | account (now : ℚ) (idle : Bool)
  /-- `netCheck` starts its next read. -/
  | netCheck
  | read (k : ℕ) (now : ℚ)
  | readFailed (k : ℕ)
  /-- The `finally` of the shared promise. -/
  | settled
  /-- A write starts its run. -/
  | write
  /-- The run of a write is over: its receipt is made out, and it returns. -/
  | wrote
  /-- `reducePosition` calls `account()` first. -/
  | reduce (now : ℚ) (idle : Bool)
  /-- It has its account: it starts its run, or there is no position and it returns at once. -/
  | reduceRead (found : Bool)
  /-- `account()` throws, and `reducePosition` with it. -/
  | reduceFailed
  | stop

namespace Reads

variable (ttls : Ttls) (s : Reads)

def serve (run : ℕ) : Reads := { s with calls := s.calls++[⟨s.clock,run⟩] }

def accountInner (shared : Bool) : Reads := { s with reading := s.reading++[⟨s.clock,shared⟩] }

/-- The view that `account` takes from the cache. -/
def cached (now : ℚ) (idle : Bool) : Option CachedView :=
  s.accountCache.filter fun c => now-c.cachedAt < if idle then ttls.idleTtlMs else ttls.accountTtlMs

def account (now : ℚ) (idle : Bool) : Reads :=
  match s.cached ttls now idle,s.accountInFlight with
  | some c,_ => s.serve c.run
  | none,some run => s.serve run
  | none,none => { s.accountInner true with accountInFlight := some s.clock }.serve s.clock

def invalidateAccount : Reads := { s with accountCache := none }

def occur : Event → Reads
  | .account now idle => s.account ttls now idle
  | .netCheck => s.accountInner false
  | .read k now =>
    match s.reading[k]? with
    | some r =>
      { s with reading := s.reading.eraseIdx k, accountCache := some ⟨now,r.startedAt⟩ }
    | none => s
  | .readFailed k => { s with reading := s.reading.eraseIdx k }
  | .settled => if s.reading.any AccountRun.shared then s else { s with accountInFlight := none }
  | .write => { s with writing := s.writing+1 }
  | .wrote =>
    if s.writing=0 then s
    else { s.invalidateAccount with writing := s.writing-1, returned := s.returned++[s.clock] }
  | .reduce now idle => { s.account ttls now idle with reducing := s.reducing+1 }
  | .reduceRead found =>
    if s.reducing=0 then s
    else if found then { s with reducing := s.reducing-1, writing := s.writing+1 }
    -- 'no position': no receipt is made out, so the view stays
    else { s with reducing := s.reducing-1, returned := s.returned++[s.clock] }
  | .reduceFailed => { s with reducing := s.reducing-1 }
  | .stop => { s with accountCache := none }

def step (e : Event) : Reads := { s.occur ttls e with clock := s.clock+1 }

end Reads
end TradeGate.AgentMcpBackend
