import TradeGate.Execd.Store
import TradeGate.Feed.Consecutive
import TradeGate.Model.Execd

/-! What a subscription sends. -/
namespace TradeGate.Execd
open Feed Machine

/-- The task has started to send events, and has not ended. -/
def Task.begun : Task → Bool
  | .opening | .replying _ | .ended => false
  | _ => true

/-- The history is over. -/
def Task.caughtUp : Task → Bool
  | .live | .gap _ | .fill _ _ | .forward _ => true
  | _ => false

/-- The event that the task has taken from the bus. -/
def Task.held : Task → Option ExecEvent
  | .gap ev | .fill ev _ | .forward ev => some ev
  | _ => none

namespace Store

/-- The log is numbered from one, without gaps. -/
structure Logged (db : Db) : Prop where
  events : Consecutive ExecEvent.seq 0 db.events
  seq : db.seq=db.events.length

variable {db : Db} {n : ℕ}

theorem Logged.seq_le (h : Logged db) {ev : ExecEvent} (hev : ev ∈ db.events) :
    ev.seq ≤ db.events.length := by
  have := (h.events.bounds hev).2
  omega

theorem eventsSince_eq (h : Logged db) {sinceSeq : ℕ} (hsince : sinceSeq<2^63) (limit : ℕ) :
    eventsSince db sinceSeq limit=(db.events.drop sinceSeq).take limit := by
  simp only [eventsSince,Int64.toInt_ofNat_of_lt hsince,Nat.cast_lt]
  rw [h.events.filter_gt,Nat.sub_zero]

/-- A read of the log brings the next events. -/
theorem eventsSince_consecutive (h : Logged db) {sinceSeq : ℕ} (hsince : sinceSeq<2^63) (limit : ℕ) :
    Consecutive ExecEvent.seq sinceSeq (eventsSince db sinceSeq limit) := by
  rw [eventsSince_eq h hsince]
  have hd := h.events.drop sinceSeq
  rw [Nat.zero_add] at hd
  exact hd.take limit

theorem eventsSince_subset (db : Db) (sinceSeq limit : ℕ) :
    eventsSince db sinceSeq limit ⊆ db.events :=
  ((List.take_sublist _ _).trans List.filter_sublist).subset

theorem length_eventsSince (h : Logged db) {sinceSeq : ℕ} (hsince : sinceSeq<2^63) (limit : ℕ) :
    (eventsSince db sinceSeq limit).length=min limit (db.events.length-sinceSeq) := by
  rw [eventsSince_eq h hsince,List.length_take,List.length_drop]

/-- A transaction numbers its events on. -/
theorem run_txInsertEvents (evs : List ExecEvent) (db : Db) :
    ∃ new, Consecutive ExecEvent.seq db.seq new ∧ new.length=evs.length ∧ (txInsertEvents evs).run db=
      .ok ((),{ db with events := db.events++new, seq := db.seq+new.length }) := by
  induction evs generalizing db with
  | nil => exact ⟨[],by simp,rfl,by simp [txInsertEvents]; rfl⟩
  | cons ev evs ih =>
    obtain ⟨new,hnew,hlen,hrun⟩ := ih { db with
      events := db.events++[numbered db ev]
      seq := db.seq+1 }
    refine ⟨numbered db ev::new,Consecutive.cons_iff.mpr ⟨rfl,hnew⟩,congrArg (·+1) hlen,?_⟩
    rw [txInsertEvents,StateT.run_bind,run_txInsertEvent,ok_bind,hrun,List.append_assoc,List.length_cons,
      Nat.add_assoc,Nat.add_comm 1]
    rfl

end Store

open Store

namespace Subscription

/-- The number after which the client wants events. -/
def origin (s : Subscription) : ℕ := s.sinceSeq.getD (s.answer.getD 0)

/-- What the task holds comes next in the log, and what it fills reaches the event it holds. -/
def Ready (log : List ExecEvent) (last : ℕ) : Task → Prop
  | .replay batch => Consecutive ExecEvent.seq last batch ∧ batch ⊆ log
  | .gap ev => ev ∈ log ∧ last+1<ev.seq
  | .fill ev missing =>
    ev ∈ log ∧ Consecutive ExecEvent.seq last missing ∧ missing ⊆ log ∧ ev.seq ≤ last+missing.length+1
  | .forward ev => ev ∈ log ∧ ev.seq=last+1
  | _ => True

/-- The event still comes: it is not published yet, or the bus or the task holds one that is as new. -/
def Awaited (s : Subscription) (ev : ExecEvent) : Prop :=
  ev ∉ s.app.bus ∨ (∃ e ∈ s.app.bus.drop s.next, ev.seq ≤ e.seq) ∨ ∃ e ∈ s.task.held, ev.seq ≤ e.seq

/-- The invariant of a subscription, over a log that had `start` events when it was opened. -/
structure InStep (start : ℕ) (s : Subscription) : Prop where
  logged : Logged s.app.db
  kept : start ≤ s.app.db.events.length
  published : s.app.bus ⊆ s.app.db.events
  position : s.next ≤ s.app.bus.length
  sent : Consecutive ExecEvent.seq s.origin s.sent
  sent_log : s.sent ⊆ s.app.db.events
  idle : s.task=.opening ∨ (∃ current, s.task=.replying current) → s.sent=[]
  last : s.task.begun=true → s.last=s.origin+s.sent.length
  ready : Ready s.app.db.events s.last s.task
  started : s.task.caughtUp=true → start ≤ s.last
  awaited : s.task.caughtUp=true → ∀ ev ∈ s.app.db.events, s.last<ev.seq → s.Awaited ev

theorem Ready.mono {log log' : List ExecEvent} {last : ℕ} {task : Task} (h : Ready log last task)
    (hlog : log ⊆ log') : Ready log' last task := by
  cases task with
  | replay batch => exact ⟨h.1,List.Subset.trans h.2 hlog⟩
  | gap ev => exact ⟨hlog h.1,h.2⟩
  | fill ev missing => exact ⟨hlog h.1,h.2.1,List.Subset.trans h.2.2.1 hlog,h.2.2.2⟩
  | forward ev => exact ⟨hlog h.1,h.2⟩
  | _ => trivial

namespace InStep

variable {start : ℕ} {s : Subscription}

theorem commit (h : InStep start s) (events : List ExecEvent) : InStep start (s.occur (.commit events)) := by
  obtain ⟨new,hnew,-,hrun⟩ := run_txInsertEvents events s.app.db
  simp only [occur,hrun]
  have hgrow : s.app.db.events ⊆ s.app.db.events++new := List.subset_append_left _ _
  rw [h.logged.seq] at hnew
  refine ⟨⟨h.logged.events.append (by rwa [Nat.zero_add]),?_⟩,?_,List.Subset.trans h.published hgrow,h.position,h.sent,
    List.Subset.trans h.sent_log hgrow,h.idle,h.last,h.ready.mono hgrow,h.started,fun hc ev hev hl => ?_⟩
  · rw [List.length_append,h.logged.seq]
  · exact h.kept.trans (List.length_append ▸ Nat.le_add_right _ _)
  · rcases List.mem_append.mp hev with hev|hev
    · exact h.awaited hc ev hev hl
    · -- a new event is not on the bus yet
      refine .inl fun hbus => ?_
      have := h.logged.seq_le (h.published hbus)
      have := (hnew.bounds hev).1
      omega

theorem publish (h : InStep start s) (position : ℕ) : InStep start (s.occur (.publish position)) := by
  have hnew : (s.app.db.events[position]?).toList ⊆ s.app.db.events := fun ev hev =>
    List.mem_of_getElem? (Option.mem_toList.mp hev)
  refine ⟨h.logged,h.kept,List.append_subset.mpr ⟨h.published,hnew⟩,?_,h.sent,h.sent_log,h.idle,h.last,h.ready,
    h.started,fun hc ev hev hl => ?_⟩
  · exact h.position.trans (List.length_append ▸ Nat.le_add_right _ _)
  · by_cases hin : ev ∈ (s.app.db.events[position]?).toList
    · refine .inr (.inl ⟨ev,?_,le_rfl⟩)
      change ev ∈ (s.app.bus++_).drop s.next
      rw [List.drop_append_of_le_length h.position]
      exact List.mem_append_right _ hin
    · rcases h.awaited hc ev hev hl with hno|⟨e,he,hle⟩|hheld
      · exact .inl fun hmem => (List.mem_append.mp hmem).elim hno hin
      · refine .inr (.inl ⟨e,?_,hle⟩)
        change e ∈ (s.app.bus++_).drop s.next
        rw [List.drop_append_of_le_length h.position]
        exact List.mem_append_left _ he
      · exact .inr (.inr hheld)

/-- The task ends. -/
theorem end_ (h : InStep start s) (last : ℕ) : InStep start { s with last := last, task := .ended } :=
  ⟨h.logged,h.kept,h.published,h.position,h.sent,h.sent_log,by simp,nofun,trivial,nofun,nofun⟩

/-- The event that comes next is sent. -/
theorem notify (h : InStep start s) {ev : ExecEvent} {task : Task} (ok : Bool) (hb : s.task.begun=true)
    (hev : ev ∈ s.app.db.events) (hseq : ev.seq=s.last+1) (hnext : task.begun=true)
    (hready : Ready s.app.db.events ev.seq task) (hcaught : task.caughtUp=true →
      s.task.caughtUp=true ∧ ∀ e ∈ s.task.held, e ∈ task.held ∨ e.seq ≤ ev.seq) :
    InStep start (s.notify ok ev task) := by
  have hlast := h.last hb
  cases ok with
  | false => exact h.end_ ev.seq
  | true =>
    change InStep start { s with last := ev.seq, sent := s.sent++[ev], task := task }
    refine ⟨h.logged,h.kept,h.published,h.position,h.sent.snoc (by omega),
      List.append_subset.mpr ⟨h.sent_log,by simpa using hev⟩,?_,fun _ => ?_,hready,fun hc => ?_,
      fun hc e he hle => ?_⟩
    · rintro (hidle|⟨current,hidle⟩) <;>
      · change task=_ at hidle
        rw [hidle] at hnext
        cases hnext
    · change ev.seq=s.origin+(s.sent++[ev]).length
      rw [List.length_append,List.length_singleton]
      omega
    · have := h.started (hcaught hc).1
      change start ≤ ev.seq
      omega
    · obtain ⟨hc',hheld⟩ := hcaught hc
      change ev.seq<e.seq at hle
      rcases h.awaited hc' e he (by omega) with hno|hbus|⟨e',he',hle'⟩
      · exact .inl hno
      · exact .inr (.inl hbus)
      · rcases hheld e' he' with hin|hout
        · exact .inr (.inr ⟨e',hin,hle'⟩)
        · omega

/-- The task goes on without sending. -/
theorem turn (h : InStep start s) {task : Task} (hb : s.task.begun=true) (hnext : task.begun=true)
    (hready : Ready s.app.db.events s.last task)
    (hcaught : task.caughtUp=true → (s.task.caughtUp=true ∧ ∀ e ∈ s.task.held, e ∈ task.held ∨ e.seq ≤ s.last) ∨
      s.app.db.events.length ≤ s.last) : InStep start { s with task := task } := by
  refine ⟨h.logged,h.kept,h.published,h.position,h.sent,h.sent_log,?_,fun _ => h.last hb,hready,fun hc => ?_,
    fun hc e he hle => ?_⟩
  · rintro (hidle|⟨current,hidle⟩) <;>
    · change task=_ at hidle
      rw [hidle] at hnext
      cases hnext
  · rcases hcaught hc with ⟨hc',-⟩|hall
    · exact h.started hc'
    · exact h.kept.trans hall
  · change s.last<e.seq at hle
    rcases hcaught hc with ⟨hc',hheld⟩|hall
    · rcases h.awaited hc' e he hle with hno|hbus|⟨e',he',hle'⟩
      · exact .inl hno
      · exact .inr (.inl hbus)
      · rcases hheld e' he' with hin|hout
        · exact .inr (.inr ⟨e',hin,hle'⟩)
        · omega
    · have := h.logged.seq_le he
      omega

/-- The receiver takes the next message. -/
theorem take (h : InStep start s) (ht : s.task=.live) {ev : ExecEvent} (hev : s.app.bus[s.next]?=some ev)
    {task : Task} (hnext : task.begun=true) (hready : Ready s.app.db.events s.last task)
    (hheld : task.held=some ev ∨ ev.seq ≤ s.last) :
    InStep start { s with next := s.next+1, task := task } := by
  have hb : s.task.begun=true := by rw [ht]; rfl
  have hc : s.task.caughtUp=true := by rw [ht]; rfl
  obtain ⟨hlt,hget⟩ := List.getElem?_eq_some_iff.mp hev
  refine ⟨h.logged,h.kept,h.published,hlt,h.sent,h.sent_log,?_,fun _ => h.last hb,hready,
    fun _ => h.started hc,fun _ e he hle => ?_⟩
  · rintro (hidle|⟨current,hidle⟩) <;>
    · change task=_ at hidle
      rw [hidle] at hnext
      cases hnext
  · change s.last<e.seq at hle
    rcases h.awaited hc e he hle with hno|⟨e',he',hle'⟩|⟨e',he',-⟩
    · exact .inl hno
    · rw [List.drop_eq_getElem_cons hlt,hget] at he'
      rcases List.mem_cons.mp he' with rfl|he'
      · rcases hheld with hheld|hold
        · exact .inr (.inr ⟨e',hheld,hle'⟩)
        · omega
      · exact .inr (.inl ⟨e',he',hle'⟩)
    · rw [ht] at he'
      cases he'

/-- The receiver skips messages; one as new as each of them is still to come. -/
theorem skip (h : InStep start s) (ht : s.task=.live) {next : ℕ} (hnext : next ≤ s.app.bus.length)
    (hlag : ∀ e ∈ s.app.bus.drop s.next, ∃ e' ∈ s.app.bus.drop next, e.seq ≤ e'.seq) :
    InStep start { s with next := next } := by
  refine ⟨h.logged,h.kept,h.published,hnext,h.sent,h.sent_log,h.idle,h.last,h.ready,h.started,
    fun hc e he hle => ?_⟩
  rcases h.awaited hc e he hle with hno|⟨e',he',hle'⟩|⟨e',he',-⟩
  · exact .inl hno
  · obtain ⟨e'',he'',hle''⟩ := hlag e' he'
    exact .inr (.inl ⟨e'',he'',hle'.trans hle''⟩)
  · rw [ht] at he'
    cases he'

theorem recv (h : InStep start s) (ht : s.task=.live) (hlag : s.lagged=true →
      ∀ e ∈ s.app.bus.drop s.next, ∃ e' ∈ s.app.bus.drop (s.app.bus.length-busCapacity), e.seq ≤ e'.seq) :
    InStep start s.recv := by
  unfold Subscription.recv
  split
  · next hl => exact h.skip ht (Nat.sub_le _ _) (hlag hl)
  · split
    · exact h
    · next ev hev =>
      have hlog : ev ∈ s.app.db.events := h.published (List.mem_of_getElem? hev)
      dsimp only
      split
      · next hold =>
        have hstay : InStep start { s with next := s.next+1, task := .live } :=
          h.take ht hev rfl trivial (.inr hold)
        rwa [← ht] at hstay
      · split
        · next hold hgap => exact h.take ht hev rfl ⟨hlog,hgap⟩ (.inl rfl)
        · next hold hgap => exact h.take ht hev rfl ⟨hlog,by omega⟩ (.inl rfl)

/-- The current number is read, and the answer is sent. -/
theorem open_ (h : InStep start s) (ht : s.task=.opening) (current : ℕ) :
    InStep start { s with task := .replying current } :=
  ⟨h.logged,h.kept,h.published,h.position,h.sent,h.sent_log,fun _ => h.idle (.inl ht),nofun,trivial,
    nofun,nofun⟩

theorem reply (h : InStep start s) {current : ℕ} (ht : s.task=.replying current) :
    InStep start { s with
      answer := some current
      last := s.sinceSeq.getD current
      task := .replay [] } := by
  have hsent : s.sent=[] := h.idle (.inr ⟨current,ht⟩)
  refine ⟨h.logged,h.kept,h.published,h.position,?_,h.sent_log,by simp,fun _ => ?_,
    ⟨Consecutive.nil,List.nil_subset _⟩,nofun,nofun⟩
  · change Consecutive ExecEvent.seq _ s.sent
    rw [hsent]
    exact .nil
  · change s.sinceSeq.getD current=s.sinceSeq.getD current+s.sent.length
    rw [hsent]
    rfl

end InStep

/-- The log is read from a number that an `i64` holds; where a live event finds a gap, the log is read
and one page reaches it; where the receiver has lagged, a message is left that is as new as each of those
that are gone. -/
def Bridged (s : Subscription) : Occurrence → Prop
  | .advance ok => match s.task with
    | .replay [] => s.last<2^63
    | .gap ev => s.last<2^63 ∧ ok=true ∧ ev.seq ≤ s.last+pageSize+1
    | .live => s.lagged=true → ∀ e ∈ s.app.bus.drop s.next,
      ∃ e' ∈ s.app.bus.drop (s.app.bus.length-busCapacity), e.seq ≤ e'.seq
    | _ => True
  | _ => True

instance (s : Subscription) (o : Occurrence) : Decidable (Bridged s o) := by
  unfold Bridged
  cases o with
  | advance ok => dsimp only; split <;> infer_instance
  | _ => infer_instance

theorem InStep.advance {start : ℕ} {s : Subscription} (h : InStep start s) {ok : Bool}
    (hok : Bridged s (.advance ok)) : InStep start (s.advance ok) := by
  have hready := h.ready
  unfold Bridged at hok
  unfold Subscription.advance
  cases ht : s.task with
  | opening =>
    cases ok with
    | false => exact h.end_ s.last
    | true => exact h.open_ ht _
  | replying current =>
    cases ok with
    | false => exact h.end_ s.last
    | true => exact h.reply ht
  | live =>
    rw [ht] at hok
    exact h.recv ht hok
  | replay batch =>
    have hb : s.task.begun=true := by rw [ht]; rfl
    rw [ht] at hready
    cases batch with
    | cons ev batch =>
      obtain ⟨hseq,hrest⟩ := Consecutive.cons_iff.mp hready.1
      obtain ⟨hev,hbatch⟩ := List.cons_subset.mp hready.2
      rw [← hseq] at hrest
      exact h.notify ok hb hev hseq rfl ⟨hrest,hbatch⟩ nofun
    | nil =>
      cases ok with
      | false => exact h.end_ s.last
      | true =>
        rw [ht] at hok
        have hpage := eventsSince_consecutive h.logged hok pageSize
        have hlog := eventsSince_subset s.app.db s.last pageSize
        have hlen := length_eventsSince h.logged hok pageSize
        dsimp only
        cases hp : eventsSince s.app.db s.last pageSize with
        | nil =>
          -- the whole log was sent
          rw [hp,List.length_nil] at hlen
          have hpos : 0<pageSize := by decide
          exact h.turn hb rfl trivial fun _ => .inr (by omega)
        | cons ev batch =>
          rw [hp] at hpage hlog
          exact h.turn hb rfl ⟨hpage,hlog⟩ nofun
  | gap ev =>
    have hb : s.task.begun=true := by rw [ht]; rfl
    have hc : s.task.caughtUp=true := by rw [ht]; rfl
    rw [ht] at hready hok
    obtain ⟨hlast,rfl,hreach⟩ := hok
    have hlen := length_eventsSince h.logged hlast pageSize
    have hle := h.logged.seq_le hready.1
    refine h.turn hb rfl ⟨hready.1,eventsSince_consecutive h.logged hlast _,eventsSince_subset _ _ _,?_⟩
      fun _ => .inl ⟨hc,fun e he => .inl (by rw [ht] at he; exact he)⟩
    change ev.seq ≤ s.last+(eventsSince s.app.db s.last pageSize).length+1
    omega
  | fill ev missing =>
    have hb : s.task.begun=true := by rw [ht]; rfl
    have hc : s.task.caughtUp=true := by rw [ht]; rfl
    rw [ht] at hready
    obtain ⟨hev,hcons,hsub,hreach⟩ := hready
    cases missing with
    | cons m missing =>
      obtain ⟨hseq,hrest⟩ := Consecutive.cons_iff.mp hcons
      obtain ⟨hm,hmissing⟩ := List.cons_subset.mp hsub
      rw [← hseq] at hrest
      dsimp only
      rw [if_pos (by omega)]
      refine h.notify ok hb hm hseq rfl ⟨hev,hrest,hmissing,?_⟩ fun _ => ⟨hc,fun e he => .inl ?_⟩
      · rw [List.length_cons] at hreach
        omega
      · rw [ht] at he
        exact he
    | nil =>
      rw [List.length_nil] at hreach
      dsimp only
      by_cases hold : ev.seq ≤ s.last
      · rw [if_pos hold]
        refine h.turn hb rfl trivial fun _ => .inl ⟨hc,fun e he => .inr ?_⟩
        rw [ht] at he
        cases he
        exact hold
      · rw [if_neg hold]
        exact h.turn hb rfl ⟨hev,by omega⟩ fun _ => .inl ⟨hc,fun e he => .inl (by rw [ht] at he; exact he)⟩
  | forward ev =>
    have hb : s.task.begun=true := by rw [ht]; rfl
    have hc : s.task.caughtUp=true := by rw [ht]; rfl
    rw [ht] at hready
    refine h.notify ok hb hready.1 hready.2 rfl trivial fun _ => ⟨hc,fun e he => .inr ?_⟩
    rw [ht] at he
    cases he
    exact le_rfl
  | ended => exact h

theorem InStep.occur {start : ℕ} {s : Subscription} (h : InStep start s) (o : Occurrence)
    (ho : Bridged s o) : InStep start (s.occur o) := by
  cases o with
  | commit events => exact h.commit events
  | publish position => exact h.publish position
  | advance ok => exact h.advance ho

/-- A log from which a client may subscribe. -/
structure Feeds (app : App) : Prop where
  logged : Logged app.db
  published : app.bus ⊆ app.db.events

theorem InStep.start {app : App} (h : Feeds app) (sinceSeq : Option ℕ) :
    InStep app.db.events.length (subscribe app sinceSeq) :=
  ⟨h.logged,le_rfl,h.published,le_rfl,.nil,List.nil_subset _,fun _ => rfl,nofun,trivial,nofun,nofun⟩

/-- The task waits for the bus, which has nothing more for it. -/
def Drained (s : Subscription) : Prop := s.task=.live ∧ s.app.bus.length ≤ s.next

/-- A receive leaves the task to go on. -/
theorem recv_task {s : Subscription} (h : s.task=.live) : s.recv.task ≠ .ended := by
  unfold recv
  split
  · rw [h]
    nofun
  · split
    · rw [h]
      nofun
    · dsimp only
      split
      · rw [h]
        nofun
      · split <;> nofun

/-- Only a read or a send that fails ends the task. -/
theorem advance_task {s : Subscription} (h : s.task ≠ .ended) : (s.advance true).task ≠ .ended := by
  unfold advance
  cases ht : s.task with
  | opening => nofun
  | replying current => nofun
  | replay batch =>
    cases batch with
    | nil =>
      dsimp only
      rw [if_pos rfl]
      split <;> nofun
    | cons ev batch => nofun
  | live => exact recv_task ht
  | gap ev => nofun
  | fill ev missing =>
    cases missing with
    | nil =>
      dsimp only
      split <;> nofun
    | cons m missing =>
      dsimp only
      split <;> nofun
  | forward ev => nofun
  | ended => exact absurd ht h

theorem occur_task {s : Subscription} {o : Occurrence} (h : s.task ≠ .ended) (ho : o ≠ .advance false) :
    (s.occur o).task ≠ .ended := by
  cases o with
  | publish position => exact h
  | commit events =>
    obtain ⟨new,-,-,hrun⟩ := run_txInsertEvents events s.app.db
    simp only [occur,hrun]
    exact h
  | advance ok =>
    cases ok with
    | false => exact absurd rfl ho
    | true => exact advance_task h

/-- An event of the log that the drained subscription has not sent was not published. -/
theorem InStep.drained {start : ℕ} {s : Subscription} (h : InStep start s) (hd : s.Drained)
    (hpub : ∀ ev ∈ s.app.db.events.drop start, ev ∈ s.app.bus) {ev : ExecEvent}
    (hev : ev ∈ s.app.db.events) : ev.seq ≤ s.last := by
  obtain ⟨hlive,hnext⟩ := hd
  have hc : s.task.caughtUp=true := by rw [hlive]; rfl
  by_contra hlast
  have hstart := h.started hc
  have hlate : ev ∈ s.app.db.events.drop start := by
    have hfilter := h.logged.events.filter_gt start
    rw [Nat.sub_zero] at hfilter
    rw [← hfilter]
    exact List.mem_filter.mpr ⟨hev,decide_eq_true (by omega)⟩
  rcases h.awaited hc ev hev (by omega) with hno|⟨e,he,-⟩|⟨e,he,-⟩
  · exact hno (hpub ev hlate)
  · rw [List.drop_eq_nil_of_le hnext] at he
    cases he
  · rw [hlive] at he
    cases he

/-- While one page bridges every gap, no lag loses the newest event and an `i64` holds the numbers that the
log is read from, a subscription sends the events after the number that the client asked from, one after
the other; once it has drained the bus, on which all that was committed since it was opened was published,
it has sent them all.  Only a read of the log or a send that fails ends it. -/
theorem delivers_in_order (app : App) (happ : Feeds app) (sinceSeq : Option ℕ) (os : List Occurrence)
    (h : Throughout Subscription.occur Bridged (subscribe app sinceSeq) os) :
    let s := run Subscription.occur (subscribe app sinceSeq) os
    s.sent=s.app.db.events.filter (fun ev => s.origin<ev.seq ∧ ev.seq ≤ s.origin+s.sent.length) ∧
      (s.Drained → (∀ ev ∈ s.app.db.events.drop app.db.events.length, ev ∈ s.app.bus) →
        s.sent=s.app.db.events.filter fun ev => s.origin<ev.seq) ∧
      (s.task=.ended → .advance false ∈ os) := by
  have hrun : InStep app.db.events.length (run Subscription.occur (subscribe app sinceSeq) os) :=
    run_invariant (fun s o hs ho => hs.occur o ho) (.start happ sinceSeq) h
  have hexact := hrun.sent.eq_filter hrun.logged.events hrun.sent_log
  refine ⟨hexact,fun hd hpub => ?_,fun hended => ?_⟩
  · refine hexact.trans (List.filter_congr fun ev hev => ?_)
    have hle := hrun.drained hd hpub hev
    rw [hrun.last (by rw [hd.1]; rfl)] at hle
    simp [hle]
  · by_contra hno
    have hbegin : (subscribe app sinceSeq).task ≠ .ended := nofun
    have hok : Throughout Subscription.occur (fun _ o => o ≠ .advance false) (subscribe app sinceSeq) os :=
      throughout_of_forall fun o ho hfalse => hno (hfalse ▸ ho)
    exact run_invariant (I := fun s : Subscription => s.task ≠ .ended)
      (fun _ _ hs ho => occur_task hs ho) hbegin hok hended

/-! A gap that one page does not bridge. -/

def pulse : ExecEvent := makeEvent .haltChanged 0 none none none []

/-- The client has replayed an empty log; of the next events the newest is published first. -/
def wideGap (missing : ℕ) : List Occurrence :=
  [.advance true,.advance true,.advance true,.commit (List.replicate (missing+1) pulse),.publish missing]++
    List.replicate (missing+4) (.advance true)

/-- The beginning of `wideGap`: the page of the gap was read. -/
def gapFound (missing : ℕ) : List Occurrence :=
  [.advance true,.advance true,.advance true,.commit (List.replicate (missing+1) pulse),.publish missing]++
    List.replicate 2 (.advance true)

/-- A page that goes on where the client stands is sent whole. -/
theorem run_fill {s : Subscription} {ev : ExecEvent} {missing : List ExecEvent} (hs : s.task=.fill ev missing)
    (hm : Consecutive ExecEvent.seq s.last missing) :
    run Subscription.occur s (List.replicate missing.length (.advance true)) =
      { s with last := s.last+missing.length, sent := s.sent++missing, task := .fill ev [] } := by
  induction missing generalizing s with
  | nil =>
    rw [List.append_nil,List.length_nil,List.replicate_zero,run_nil,← hs]
    rfl
  | cons m missing ih =>
    obtain ⟨hseq,hrest⟩ := Consecutive.cons_iff.mp hm
    have hstep : s.occur (.advance true)={ s with last := m.seq, sent := s.sent++[m], task := .fill ev missing } := by
      change s.advance true=_
      unfold Subscription.advance
      rw [hs]
      exact if_pos (by omega)
    rw [List.length_cons,List.replicate_succ,run_cons,hstep,ih rfl (by rw [hseq]; exact hrest)]
    simp only [List.append_assoc,List.singleton_append,hseq]
    congr 1
    omega

/-- The end of a gap: the event that was held goes out after the page. -/
theorem run_forward {s : Subscription} {ev : ExecEvent} (hs : s.task=.fill ev []) (hlast : s.last<ev.seq) :
    (run Subscription.occur s (List.replicate 3 (.advance true))).origin=s.origin ∧
    (run Subscription.occur s (List.replicate 3 (.advance true))).sent=s.sent++[ev] := by
  have h₁ : s.occur (.advance true)={ s with task := .forward ev } := by
    change s.advance true=_
    unfold Subscription.advance
    rw [hs]
    simp only [if_neg (Nat.not_le.mpr hlast)]
  have h₂ : run Subscription.occur s (List.replicate 3 (.advance true)) =
      ({ s with last := ev.seq, sent := s.sent++[ev], task := .live } : Subscription).recv := by
    rw [List.replicate_succ,run_cons,h₁]
    rfl
  rw [h₂]
  unfold Subscription.recv
  split_ifs
  · exact ⟨rfl,rfl⟩
  · split
    · exact ⟨rfl,rfl⟩
    · dsimp only
      split_ifs <;> exact ⟨rfl,rfl⟩

/-- The page of the gap is read, and the event that was held is the one after it and one more. -/
theorem run_gapFound : ∃ (s : Subscription) (ev : ExecEvent) (missing : List ExecEvent),
    run Subscription.occur (subscribe {} (some 0)) (gapFound 501)=s ∧
    s.task=.fill ev missing ∧ ev.seq=502 ∧ Consecutive ExecEvent.seq 0 missing ∧ missing.length=500 ∧ s.last=0 ∧
      s.origin=0 ∧ s.sent=[] := by
  obtain ⟨new,hnew,hlen,hrun⟩ := run_txInsertEvents (List.replicate (501+1) pulse) {}
  rw [List.length_replicate] at hlen
  have hlogged : Logged { events := new, seq := new.length } := ⟨hnew,rfl⟩
  have hget : new[501]?=some new[501] := List.getElem?_eq_getElem (by omega)
  have hseq : (new[501]).seq=502 := by
    have hmap := congrArg (·[501]?) hnew
    simpa [hget,hlen] using hmap
  have hgap : run Subscription.occur (subscribe {} (some 0)) (gapFound 501) =
      { subscribe { db := { events := new, seq := new.length }, bus := [new[501]] } (some 0) with
        answer := some 0, next := 1,
        task := .fill new[501] (eventsSince { events := new, seq := new.length } 0 pageSize) } := by
    have hstart : run Subscription.occur (subscribe {} (some 0)) [.advance true,.advance true,.advance true] =
        { subscribe {} (some 0) with answer := some 0, task := .live } := rfl
    have hcommit (s : Subscription) (hs : s.app.db={}) : s.occur (.commit (List.replicate (501+1) pulse)) =
        { s with app := { s.app with db := { events := new, seq := new.length } } } := by
      simp only [Subscription.occur,hs,hrun]
      simp
    have hos : gapFound 501=[.advance true,.advance true,.advance true]++
        [.commit (List.replicate (501+1) pulse),.publish 501,.advance true,.advance true] := rfl
    have happend : ∀ s xs ys, run Subscription.occur s (xs++ys)=run Subscription.occur (run Subscription.occur s xs) ys :=
      fun _ _ _ => List.foldl_append
    rw [hos,happend,hstart,run_cons,hcommit _ rfl,run_cons,run_cons,run_cons,run_nil]
    simp [Subscription.occur,Subscription.advance,Subscription.recv,Subscription.lagged,subscribe,busCapacity,hget,hseq]
  refine ⟨_,new[501],eventsSince { events := new, seq := new.length } 0 pageSize,hgap,rfl,hseq,
    eventsSince_consecutive hlogged (by decide) pageSize,?_,rfl,rfl,rfl⟩
  rw [length_eventsSince hlogged (by decide),hlen]
  rfl

theorem feeds_empty : Feeds {} := ⟨⟨rfl,rfl⟩,List.nil_subset _⟩

theorem run_wideGap :
    (run Subscription.occur (subscribe {} (some 0)) (wideGap 501)).origin=0 ∧
    (run Subscription.occur (subscribe {} (some 0)) (wideGap 501)).sent.map ExecEvent.seq=
      List.range' 1 500++[502] := by
  have happend : ∀ s xs ys, run Subscription.occur s (xs++ys)=run Subscription.occur (run Subscription.occur s xs) ys :=
    fun _ _ _ => List.foldl_append
  have hos : wideGap 501=gapFound 501++(List.replicate 500 (.advance true)++List.replicate 3 (.advance true)) := by
    rw [wideGap,gapFound,List.append_assoc,List.replicate_append_replicate,List.replicate_append_replicate]
  obtain ⟨s,ev,missing,hrun,htask,hev,hm,hlen,hlast,horigin,hsent⟩ := run_gapFound
  rw [hos,happend,happend,hrun]
  have hfill := run_fill htask (hlast ▸ hm)
  rw [hlen] at hfill
  rw [hfill]
  obtain ⟨ho,hs⟩ := run_forward (s := { s with last := s.last+500, sent := s.sent++missing, task := .fill ev [] })
    rfl (by change s.last+500<ev.seq; omega)
  rw [ho,hs]
  refine ⟨horigin,?_⟩
  change ((s.sent++missing)++[ev]).map _=_
  have hpage : missing.map ExecEvent.seq=List.range' (0+1) missing.length := hm
  rw [hsent,List.nil_append,List.map_append,hpage,hlen,List.map_singleton,hev]

theorem gap_skipped :
    ¬∀ (app : App), Feeds app → ∀ (sinceSeq : Option ℕ) (os : List Occurrence),
      let s := run Subscription.occur (subscribe app sinceSeq) os
      s.sent=s.app.db.events.filter (fun ev => s.origin<ev.seq ∧ ev.seq ≤ s.origin+s.sent.length) ∧
        (s.Drained → (∀ ev ∈ s.app.db.events.drop app.db.events.length, ev ∈ s.app.bus) →
          s.sent=s.app.db.events.filter fun ev => s.origin<ev.seq) ∧
        (s.task=.ended → .advance false ∈ os) := by
  intro h
  have hskip := run_wideGap
  obtain ⟨s,hs⟩ : ∃ s, run Subscription.occur (subscribe {} (some 0)) (wideGap 501)=s := ⟨_,rfl⟩
  obtain ⟨hexact,-⟩ := h {} feeds_empty (some 0) (wideGap 501)
  rw [hs] at hskip hexact
  obtain ⟨horigin,hsent⟩ := hskip
  obtain ⟨ev,hev,hseq⟩ := List.mem_map.mp (hsent ▸ List.mem_append_right _ (List.mem_singleton_self 502))
  have hlen : s.sent.length=501 := by
    rw [← List.length_map ExecEvent.seq,hsent,List.length_append,List.length_range',List.length_singleton]
  rw [hexact] at hev
  have hle := (of_decide_eq_true (List.mem_filter.mp hev).2).2
  omega

/-- A log of two events. -/
def twoEvents : App := { db := { events := [{ pulse with seq := 1 },{ pulse with seq := 2 }], seq := 2 } }

theorem feeds_twoEvents : Feeds twoEvents := ⟨⟨rfl,rfl⟩,List.nil_subset _⟩

/-- The client asks from the first on; three events are committed and published out of order. -/
def outOfOrder : List Occurrence :=
  [.advance true,.advance true,.advance true,.commit [pulse,pulse,pulse],.advance true,.advance true,
    .publish 4,.publish 2,.publish 3]++List.replicate 8 (.advance true)

theorem outOfOrder_delivered :
    let s := run Subscription.occur (subscribe twoEvents (some 1)) outOfOrder
    (s.sent=s.app.db.events.filter (fun ev => s.origin<ev.seq ∧ ev.seq ≤ s.origin+s.sent.length) ∧
      (s.Drained → (∀ ev ∈ s.app.db.events.drop twoEvents.db.events.length, ev ∈ s.app.bus) →
        s.sent=s.app.db.events.filter fun ev => s.origin<ev.seq) ∧
      (s.task=.ended → .advance false ∈ outOfOrder)) ∧ s.sent.map ExecEvent.seq=[2,3,4,5] := by
  have hbridged : Throughout Subscription.occur Bridged (subscribe twoEvents (some 1)) outOfOrder := by
    decide +kernel
  exact ⟨delivers_in_order twoEvents feeds_twoEvents (some 1) outOfOrder hbridged,by decide +kernel⟩

end Subscription
end TradeGate.Execd
