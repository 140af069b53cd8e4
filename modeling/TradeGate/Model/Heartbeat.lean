import Mathlib.Logic.Function.Basic
import TradeGate.Js.Arith
import TradeGate.Machine.Run
import TradeGate.Model.Queue

/-! Who gets a model call when a candle closes: symbols with a trigger, and symbols whose heartbeat is
due unless their coarse picture is the one of the last time. -/
namespace TradeGate.Heartbeat
open Js

/-! The coarse picture. -/

/-- What the picture uses of the features of a timeframe. -/
structure TfFeatures where
  tf : String
  lastClose : Js.Num
  ema20 : Js.Num
  ema50 : Js.Num
  atr14 : Js.Num
  swingHigh20 : Js.Num
  swingLow20 : Js.Num
  volRatio20 : Js.Num
deriving DecidableEq

def trend (f : TfFeatures) : String :=
  if f.ema50.lt f.ema20 then "up" else if f.ema20.lt f.ema50 then "dn" else "flat"

def above (f : TfFeatures) : String := if f.ema20.le f.lastClose then "a" else "b"

def atrBucket (f : TfFeatures) : String :=
  let pct := if (Js.Num.fin 0).lt f.lastClose then (f.atr14.div f.lastClose).mul (.fin 100) else .fin 0
  if pct.lt (.fin 0.15) then "atr0" else if pct.lt (.fin 0.4) then "atr1" else "atr2"

/-- Near the high or the low of twenty bars, beyond one of them, or in between. -/
def rangeBucket (f : TfFeatures) : String :=
  if f.atr14.le (.fin 0) then "r?"
  else
    let toHigh := (f.swingHigh20.sub f.lastClose).div f.atr14
    let toLow := (f.lastClose.sub f.swingLow20).div f.atr14
    if toHigh.lt (.fin 0) then "r>hi"
    else if toLow.lt (.fin 0) then "r<lo"
    else if toHigh.le (.fin 1.5) then "r~hi"
    else if toLow.le (.fin 1.5) then "r~lo"
    else "rmid"

def volBucket (f : TfFeatures) : String :=
  if (Js.Num.fin 1.5).le f.volRatio20 then "v2" else if (Js.Num.fin 1).le f.volRatio20 then "v1" else "v0"

def heartbeatFingerprint (tf : TfFeatures) (h1 : Option TfFeatures)
    (marketStateId : Option String) (session : String) (regime : Option String) : String :=
  "|".intercalate [
    tf.tf ++ ":" ++ trend tf ++ above tf ++ ":" ++ atrBucket tf ++ ":" ++ rangeBucket tf ++ ":" ++
      volBucket tf,
    h1.elim "1h:?" fun f => "1h:" ++ trend f ++ above f,
    "ms:" ++ marketStateId.getD "-",
    "s:" ++ session,
    "rg:" ++ regime.getD "-"]

/-! The state. -/

structure OpenThread where
  id : String
  symbol : String
deriving DecidableEq

/-- What the passes read.  Of all this a pass changes only the count of the day's judgments. -/
structure World where
  now : ℕ
  halted : Bool
  paused : Bool
  /-- `scan_mode` is `triggered`, not `every_close`. -/
  triggered : Bool
  reviewEveryClose : Bool
  watchlist : List String
  heartbeatEveryMs : ℕ
  dailyJudgmentCap : ℕ
  judgmentsToday : ℕ
  openThreads : List OpenThread
  marketStateId : Option String
  regime : String → Option String

/-- How far the running episode is. -/
inductive Stage | fetching | called | judged
deriving DecidableEq

/-- What happened to a symbol. -/
inductive Happening
  | produced (symbol fingerprint : String)
  | asked (symbol fingerprint : String)
  | skipped (symbol fingerprint : String)
  | judged (symbol : String)
deriving DecidableEq

/-- `stage` and `trace` (the newest first) are not part of the source. -/
structure Scanner where
  world : World
  lastFeatures : String → Option TfFeatures
  lastH1 : String → Option TfFeatures
  lastModelCallAt : String → Option ℕ
  lastAskFingerprint : String → Option String
  heartbeatSkipped : String → Option ℕ
  queue : BrainQueue
  stage : Stage
  trace : List Happening

/-- What the features of a symbol and their triggers were when a pass fetched them. -/
structure Fetched where
  features : TfFeatures
  h1 : TfFeatures
  hits : List String

/-- What a pass has when its fetches are done: the session and the open threads at its start, what was
fetched (none for a symbol that was not, or failed), and which threads are near a protection. -/
structure Close where
  session : String
  openAtStart : List OpenThread
  fetched : String → Option Fetched
  near : String → Bool

namespace Scanner

def start (w : World) : Scanner :=
  ⟨w,fun _ => none,fun _ => none,fun _ => none,fun _ => none,fun _ => none,.empty,.fetching,[]⟩

def capReached (s : Scanner) : Prop :=
  s.world.dailyJudgmentCap ≠ 0 ∧ s.world.dailyJudgmentCap ≤ s.world.judgmentsToday

instance (s : Scanner) : Decidable s.capReached := inferInstanceAs (Decidable (_ ∧ _))

def scanKey (symbol : String) : String := "scan:" ++ symbol

def scanJob (symbol : String) : Job := ⟨scanKey symbol,.scan,some symbol,none⟩

def reviewJob (t : OpenThread) : Job := ⟨"review:" ++ t.id,.review,some t.symbol,none⟩

/-- Scans and reviews run an episode. -/
def runsEpisode (job : Job) : Bool := job.kind=.scan ∨ job.kind=.review

/-- The queue has come to `q`.  An episode that it has started is stored before it first waits, and the
day's judgments count it from there on. -/
def moves (s : Scanner) (q : BrainQueue) : Scanner :=
  let begun := (q.started.drop s.queue.started.length).countP runsEpisode
  { s with
    queue := q
    world := { s.world with judgmentsToday := s.world.judgmentsToday+begun } }

def enqueue (s : Scanner) (job : Job) (priority : Bool) : Bool × Scanner :=
  ((s.queue.enqueue job priority).1,s.moves (s.queue.enqueue job priority).2)

/-- Whether `scan` comes to its queue. -/
def mayScan (s : Scanner) (symbol : String) : Prop :=
  ¬s.world.halted ∧ ¬s.world.paused ∧ (∀ t ∈ s.world.openThreads, t.symbol ≠ symbol) ∧ ¬s.capReached

instance (s : Scanner) (symbol : String) : Decidable (s.mayScan symbol) :=
  inferInstanceAs (Decidable (_ ∧ _ ∧ _ ∧ _))

def scan (s : Scanner) (symbol : String) : Bool × Scanner :=
  if s.mayScan symbol then s.enqueue (scanJob symbol) false else (false,s)

def scanAll (s : Scanner) : Scanner := s.world.watchlist.foldl (fun s sym => (s.scan sym).2) s

def reviewThread (s : Scanner) (threadId : String) : Bool × Scanner :=
  match s.world.openThreads.find? fun t => t.id=threadId with
  | none => (false,s)
  | some t => if s.capReached then (false,s) else s.enqueue (reviewJob t) false

/-- No model call for the symbol for as long as a heartbeat. -/
def heartbeatDue (s : Scanner) (symbol : String) : Prop :=
  (s.lastModelCallAt symbol).getD 0+s.world.heartbeatEveryMs ≤ s.world.now

instance (s : Scanner) (symbol : String) : Decidable (s.heartbeatDue symbol) :=
  inferInstanceAs (Decidable (_ ≤ _))

def fingerprint (s : Scanner) (session symbol : String) : Option String :=
  (s.lastFeatures symbol).map fun f =>
    heartbeatFingerprint f (s.lastH1 symbol) s.world.marketStateId session (s.world.regime symbol)

/-- `lastAskFingerprint.set`, if there is a picture. -/
def remember (s : Scanner) (symbol : String) (fp : Option String) : Scanner :=
  match fp with
  | none => s
  | some f =>
    { s with
      lastAskFingerprint := Function.update s.lastAskFingerprint symbol (some f)
      trace := .asked symbol f::s.trace }

/-- The picture of the symbol in this pass goes into the trace. -/
def produce (s : Scanner) (symbol : String) (fp : Option String) : Scanner :=
  match fp with
  | none => s
  | some f => { s with trace := .produced symbol f::s.trace }

def skip (s : Scanner) (symbol f : String) : Scanner :=
  { s with
    heartbeatSkipped :=
      Function.update s.heartbeatSkipped symbol (some ((s.heartbeatSkipped symbol).getD 0+1))
    trace := .skipped symbol f::s.trace }

def forgetSkips (s : Scanner) (symbol : String) : Scanner :=
  { s with heartbeatSkipped := Function.update s.heartbeatSkipped symbol none }

end Scanner

/-- The triggers that were found for a symbol. -/
def Close.hits (c : Close) (symbol : String) : List String := ((c.fetched symbol).map Fetched.hits).getD []

namespace Scanner

def fetch (s : Scanner) (c : Close) : Scanner :=
  { s with
    lastFeatures := fun sym => ((c.fetched sym).map Fetched.features).or (s.lastFeatures sym)
    lastH1 := fun sym => ((c.fetched sym).map Fetched.h1).or (s.lastH1 sym) }

def reviewOpen (c : Close) (s : Scanner) (t : OpenThread) : Scanner :=
  if s.world.reviewEveryClose ∨ c.hits t.symbol ≠ [] ∨ c.near t.id ∨ s.heartbeatDue t.symbol then
    (s.reviewThread t.id).2
  else s

def watch (c : Close) (s : Scanner) (symbol : String) : Scanner :=
  if ∃ t ∈ c.openAtStart, t.symbol=symbol then s
  else
    let fp := s.fingerprint c.session symbol
    let s := s.produce symbol fp
    if c.hits symbol ≠ [] then ((s.remember symbol fp).scan symbol).2
    else if s.heartbeatDue symbol then
      match fp with
      | some f =>
        if s.lastAskFingerprint symbol=some f then s.skip symbol f
        else (((s.remember symbol fp).forgetSkips symbol).scan symbol).2
      | none => ((s.forgetSkips symbol).scan symbol).2
    else s

/-- A pass, from the point where its fetches are done. -/
def onKlineClose (s : Scanner) (c : Close) : Scanner :=
  let s := c.openAtStart.foldl (reviewOpen c) (s.fetch c)
  if s.world.paused ∨ s.world.halted then s
  else if ¬s.world.triggered then s.scanAll
  else s.world.watchlist.foldl (watch c) s

/-! Episodes. -/

/-- The symbol of the running episode. -/
def episode (s : Scanner) : Option String := s.queue.running.bind Job.symbol

/-- The fetches of the running episode were answered, and it is about to call the model. -/
def calls (s : Scanner) : Scanner :=
  match s.episode with
  | none => s
  | some sym =>
    if s.stage=.fetching then
      { s with
        stage := .called
        lastModelCallAt := Function.update s.lastModelCallAt sym (some s.world.now) }
    else s

/-- The model has answered. -/
def answers (s : Scanner) : Scanner :=
  match s.episode with
  | none => s
  | some sym => if s.stage=.called then { s with stage := .judged, trace := .judged sym::s.trace } else s

/-- The running job has returned or thrown. -/
def settles (s : Scanner) : Scanner := { s.moves s.queue.settle with stage := .fetching }

/-- A pass, other requests for a scan or a review, jobs without a symbol, the course of the running job,
and any change of what the passes read. -/
inductive Event
  | close (c : Close)
  | scan (symbol : String)
  | review (threadId : String)
  | info
  | chat (now number : ℕ) (session text : String)
  | calls
  | answers
  | settles
  | world (w : World)

def step (s : Scanner) : Event → Scanner
  | .close c => s.onKlineClose c
  | .scan symbol => (s.scan symbol).2
  | .review threadId => (s.reviewThread threadId).2
  | .info => (s.enqueue ⟨"info",.info,none,none⟩ false).2
  | .chat now number session text => s.moves (s.queue.sendChat now number session text).2
  | .calls => s.calls
  | .answers => s.answers
  | .settles => s.settles
  | .world w => { s with world := w }

abbrev run : Scanner → List Event → Scanner := Machine.run step

end Scanner
end TradeGate.Heartbeat
