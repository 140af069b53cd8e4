import Mathlib.Data.List.Basic
import Mathlib.Logic.Function.Iterate
import TradeGate.Machine.Run
import TradeGate.Model.Queue

/-! Chat turns in the queue of model calls.  A message goes to the head of the pending list, so of
two messages that wait at the same time the later one runs first; and one that arrives in the same
millisecond as a waiting one is refused.  Sessions that never have two messages waiting get their
turns in order, each exactly once. -/
namespace TradeGate

/-- The queue, and every message with whether it was accepted. -/
structure Chat where
  queue : BrainQueue
  sent : List (ChatTurn × Bool)
deriving DecidableEq

/-- Messages, other jobs, and the end of the running job. -/
inductive ChatEvent
  | send (now : ℕ) (session text : String)
  | enqueue (job : Job) (other : job.turn=none)
  | settle

namespace Chat

def empty : Chat := ⟨.empty,[]⟩

def step (c : Chat) : ChatEvent → Chat
  | .send now session text =>
    let r := c.queue.sendChat now c.sent.length session text
    ⟨r.2,c.sent ++ [(⟨c.sent.length,session,text⟩,r.1)]⟩
  | .enqueue job _ => { c with queue := (c.queue.enqueue job false).2 }
  | .settle => { c with queue := c.queue.settle }

abbrev run : Chat → List ChatEvent → Chat := Machine.run step

end Chat

def turnsOf (js : List Job) : List ChatTurn := js.filterMap (·.turn)

def ofSession (session : String) (ts : List ChatTurn) : List ChatTurn :=
  ts.filter fun t => t.session=session

namespace Chat

def messages (c : Chat) : List ChatTurn := c.sent.map Prod.fst

/-- Every message is accepted; the turns of a session that have started are its first messages, in
order; and they are all of its messages, each once, when the pending jobs have had their turn. -/
structure InOrder (c : Chat) : Prop where
  accepted : ∀ m ∈ c.sent, m.2=true
  order : ∀ session, ofSession session (turnsOf c.queue.started) <+: ofSession session c.messages
  all : ∀ session n, c.queue.pending.length ≤ n →
    ofSession session (turnsOf (BrainQueue.settle^[n] c.queue).started)=ofSession session c.messages

/-- A message finds no waiting message of its session, and no job under its key. -/
def Unhurried (c : Chat) : ChatEvent → Prop
  | .send now session _ =>
    ¬c.queue.isBusy ("chat:" ++ toString now) ∧ ∀ t ∈ turnsOf c.queue.pending, t.session ≠ session
  | _ => True

end Chat

namespace BrainQueue

variable (q : BrainQueue)

/-- Jobs that started and jobs that wait, in the order in which they run. -/
def line : List Job := q.started ++ q.pending

@[simp] theorem line_drain : q.drain.line=q.line := by
  obtain ⟨pending,running,started⟩ := q
  cases running <;> cases pending <;> simp [drain,line]

@[simp] theorem line_settle : q.settle.line=q.line := by
  unfold settle
  split
  · rfl
  · exact line_drain _

/-- Nothing waits while nothing runs. -/
def Busy : Prop := q.running=none → q.pending=[]

theorem busy_drain : q.drain.Busy := by
  obtain ⟨pending,running,started⟩ := q
  cases running <;> cases pending <;> simp [drain,Busy]

variable {q}

theorem busy_settle (h : q.Busy) : q.settle.Busy := by
  unfold settle
  split
  · exact h
  · exact busy_drain _

theorem busy_enqueue (h : q.Busy) (job : Job) (priority : Bool) : (q.enqueue job priority).2.Busy := by
  unfold enqueue
  split
  · exact h
  · exact busy_drain _

/-- One job of the pending list starts for each job that ends. -/
theorem pending_settle (h : q.Busy) : q.settle.pending.length=q.pending.length-1 := by
  obtain ⟨pending,running,started⟩ := q
  cases running with
  | none =>
    have hp : pending=[] := h rfl
    simp [settle,hp]
  | some j => cases pending <;> simp [settle,drain]

theorem settle_all (h : q.Busy) {n : ℕ} (hn : q.pending.length ≤ n) :
    (settle^[n] q).started=q.line := by
  induction n generalizing q with
  | zero =>
    have hp : q.pending=[] := List.length_eq_zero_iff.mp (Nat.le_zero.mp hn)
    simp [line,hp]
  | succ n ih =>
    rw [Function.iterate_succ_apply,ih (busy_settle h) (by rw [pending_settle h]; omega),line_settle]

end BrainQueue

namespace Chat

/-- The line of each session is its messages, in the order in which they were sent. -/
structure Queued (c : Chat) : Prop where
  accepted : ∀ m ∈ c.sent, m.2=true
  busy : c.queue.Busy
  line : ∀ session, ofSession session (turnsOf c.queue.line)=ofSession session c.messages

theorem Queued.inOrder {c : Chat} (h : c.Queued) : c.InOrder where
  accepted := h.accepted
  order := by
    intro session
    rw [← h.line,BrainQueue.line,turnsOf,turnsOf,ofSession,ofSession,List.filterMap_append,
      List.filter_append]
    exact List.prefix_append _ _
  all := by
    intro session n hn
    rw [BrainQueue.settle_all h.busy hn,h.line]

theorem ofSession_append (session : String) (ts us : List ChatTurn) :
    ofSession session (ts ++ us)=ofSession session ts ++ ofSession session us := List.filter_append ..

theorem turnsOf_append (js ks : List Job) : turnsOf (js ++ ks)=turnsOf js ++ turnsOf ks :=
  List.filterMap_append ..

theorem send_queued {c : Chat} (h : c.Queued) {now : ℕ} {session text : String}
    (hu : c.Unhurried (.send now session text)) : (c.step (.send now session text)).Queued := by
  obtain ⟨hkey,halone⟩ := hu
  let m : ChatTurn := ⟨c.sent.length,session,text⟩
  let job : Job := ⟨"chat:" ++ toString now,.chat,none,some m⟩
  have hsend : c.queue.sendChat now c.sent.length session text=
      (true,{ c.queue with pending := job::c.queue.pending : BrainQueue }.drain) := by
    simp only [BrainQueue.sendChat,BrainQueue.enqueue,if_neg hkey,if_true,job,m]
  have hstep : c.step (.send now session text)=
      ⟨{ c.queue with pending := job::c.queue.pending : BrainQueue }.drain,c.sent ++ [(m,true)]⟩ := by
    simp only [step,hsend,m]
  rw [hstep]
  refine ⟨fun x hx => ?_,BrainQueue.busy_drain _,fun s => ?_⟩
  · rcases List.mem_append.mp hx with hx|hx
    · exact h.accepted x hx
    · cases List.mem_singleton.mp hx
      rfl
  · have hline := h.line s
    rw [BrainQueue.line_drain]
    simp only [BrainQueue.line,turnsOf_append,ofSession_append,messages,List.map_append,List.map_cons,
      List.map_nil] at hline ⊢
    rw [← hline,List.append_assoc]
    congr 1
    have hjob : turnsOf (job::c.queue.pending)=m::turnsOf c.queue.pending := rfl
    rw [hjob]
    by_cases hs : session=s
    · -- nothing of this session waits
      have hnone : ofSession s (turnsOf c.queue.pending)=[] := by
        refine List.filter_eq_nil_iff.mpr fun t ht => ?_
        simpa [← hs] using halone t ht
      rw [hnone,List.nil_append,ofSession,List.filter_cons_of_pos (by simpa [m] using hs)]
      have hrest : (turnsOf c.queue.pending).filter (fun t => t.session=s)=[] := hnone
      rw [hrest,ofSession,List.filter_cons_of_pos (by simpa [m] using hs),List.filter_nil]
    · rw [ofSession,List.filter_cons_of_neg (by simpa [m] using hs),ofSession,ofSession,
        List.filter_cons_of_neg (by simpa [m] using hs),List.filter_nil,List.append_nil]

theorem step_queued {c : Chat} (h : c.Queued) {e : ChatEvent} (hu : c.Unhurried e) :
    (c.step e).Queued := by
  cases e with
  | send now session text => exact send_queued h hu
  | enqueue job other =>
    refine ⟨h.accepted,BrainQueue.busy_enqueue h.busy job false,fun s => ?_⟩
    have hline : turnsOf (c.queue.enqueue job false).2.line=turnsOf c.queue.line := by
      unfold BrainQueue.enqueue
      split
      · rfl
      · refine (congrArg turnsOf (BrainQueue.line_drain _)).trans ?_
        simp [BrainQueue.line,turnsOf,other]
    exact (congrArg (ofSession s) hline).trans (h.line s)
  | settle =>
    refine ⟨h.accepted,BrainQueue.busy_settle h.busy,fun s => ?_⟩
    exact (congrArg (fun js => ofSession s (turnsOf js)) (BrainQueue.line_settle _)).trans (h.line s)

theorem empty_queued : empty.Queued := ⟨nofun,fun _ => rfl,fun _ => rfl⟩

/-- Turns run in order and once each while no two messages of a session wait together. -/
theorem turns_in_order (es : List ChatEvent) (h : Machine.Throughout step Unhurried empty es) :
    (empty.run es).InOrder :=
  (Machine.run_invariant (I := Queued) (fun _ _ hq hu => step_queued hq hu) empty_queued h).inOrder

instance (c : Chat) : (e : ChatEvent) → Decidable (c.Unhurried e)
  | .send now session _ => inferInstanceAs (Decidable (¬c.queue.isBusy ("chat:" ++ toString now) ∧
      ∀ t ∈ turnsOf c.queue.pending, t.session ≠ session))
  | .enqueue _ _ | .settle => .isTrue trivial

def btcScan : Job := ⟨"scan:BTCUSDT",.scan,some "BTCUSDT",none⟩

/-- Two messages of one session, the second sent while the first one's turn runs. -/
theorem two_turns_in_order : (empty.run [.enqueue btcScan rfl,.send 1000 "default" "first",.settle,
    .send 2000 "default" "second",.settle]).InOrder :=
  turns_in_order _ (by decide)

/-- Three messages while a scan runs: the third turn starts before the second, and the fourth message,
sent in the millisecond of the third, is refused. -/
theorem third_turn_first : ¬(empty.run [.enqueue btcScan rfl,.send 1000 "default" "first",.settle,
    .send 2000 "default" "second",.send 3000 "default" "third",.send 3000 "default" "fourth",
    .settle]).InOrder := by
  intro h
  exact absurd (h.order "default") (by decide)


end Chat
end TradeGate
