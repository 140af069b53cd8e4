import TradeGate.Model.System
import TradeGate.Patrol.Retry

/-! Positions left without a stop: when a pass that sees one acts on it, and what the flags of a
failed close or an incomplete halt do to it. -/
namespace TradeGate
open Coop

section scripts

/-- A host that knows the digest of one thread id. -/
@[reducible] def oneDigest : Host where
  sha1Hex id := if id="thr-0" then "d82945e928e8f1338d249f4d74a22e877af4e5b1" else ""
  sha256Hex _ := ""
  id := longerId
  id_fresh := longerId_fresh

def someWorkflow : Workflow := ⟨"0.5",5,.isolated,"15m",3,5,"3",true,true,false⟩

/-- A long position with its stop, and the same position bare. -/
def heldView (orders : List OpenOrderView) : AccountView :=
  ⟨.demo,"1000",[⟨"BTCUSDT",.long,"1","100","100",5⟩],orders⟩

def restingStop : OpenOrderView := ⟨"BTCUSDT","s1","STOP_MARKET","SELL",some "90",true⟩

def replies : Replies where
  account := .ok (heldView [restingStop])
  rules := .ok ⟨"0.001","0.1","0.001","5"⟩
  order := .ok none
  placed := ⟨.unknown,none,some "timed out"⟩
  close := ⟨false,none,none,some "timed out"⟩
  ack := ⟨true,none⟩

/-- An exchange position is adopted with its resting stop. -/
def adoptMoves : List (Move Runtime Unit Call Answer Operation) :=
  [.start (.adoptPosition "BTCUSDT" none none),.serve 0 replies.answer id,.resume 0,
    .serve 0 replies.answer id,.resume 0]

/-- The adopted thread's close clears the stop and then fails. -/
def failedCloseMoves : List (Move Runtime Unit Call Answer Operation) :=
  adoptMoves++[.start (.closeThread "thr-0" "手动平仓"),.serve 0 replies.answer id,.resume 0,
    .serve 0 replies.answer id,.resume 0]

/-- What a script leads to from an empty store. -/
def configAfter (ms : List (Move Runtime Unit Call Answer Operation)) :
    Config Runtime Unit Writer Call Answer String Operation :=
  letI := oneDigest
  (Config.mk (Runtime.fresh .demo someWorkflow 100000000) () []).play gateway ms

def stateAfter (ms : List (Move Runtime Unit Call Answer Operation)) : Runtime :=
  (configAfter ms).state

/-- A minute later. -/
def Runtime.later (s : Runtime) : Runtime := { s with now := s.now+61000 }

/-- A poll of the bare position in which the stop gets no certain answer. -/
def barePoll (s : Runtime) : List (PassVisit Unit) × Except String Unit × Runtime :=
  letI := oneDigest
  Poll.play s (heldView []) (fun _ _ => replies.answer) fun _ _ => id

/-- The first poll of the bare position, and the next one a minute later. -/
def firstPoll := barePoll (stateAfter adoptMoves).later

def secondPoll := barePoll firstPoll.2.2.later

/-- The bare position after its failed close, polled a minute later. -/
def pollAfterFailedClose := barePoll (stateAfter (failedCloseMoves++[.drift Runtime.later id]))

/-- The turn of the one thread of a poll. -/
def onlyTurn (p : List (PassVisit Unit) × Except String Unit × Runtime) (h : 0<p.1.length) :
    PassVisit Unit := p.1.get ⟨0,h⟩

theorem onlyTurn_mem {p : List (PassVisit Unit) × Except String Unit × Runtime} (h : 0<p.1.length) :
    onlyTurn p h ∈ p.1 := List.get_mem _ _

def firstTurn : PassVisit Unit := onlyTurn firstPoll (by decide +kernel)

def secondTurn : PassVisit Unit := onlyTurn secondPoll (by decide +kernel)

def turnAfterFailedClose : PassVisit Unit := onlyTurn pollAfterFailedClose (by decide +kernel)

theorem turns_missStop : firstTurn.MissesStop ∧ secondTurn.MissesStop ∧ turnAfterFailedClose.MissesStop :=
  ⟨⟨by decide +kernel,by decide +kernel,by decide +kernel,by decide +kernel,by decide +kernel⟩,
    ⟨by decide +kernel,by decide +kernel,by decide +kernel,by decide +kernel,by decide +kernel⟩,
    ⟨by decide +kernel,by decide +kernel,by decide +kernel,by decide +kernel,by decide +kernel⟩⟩

/-- The first turn is of a thread in position that is due and may be acted upon. -/
theorem firstTurn_open : firstTurn.Due ∧ (¬firstTurn.Silent ∧ firstTurn.thread.stopText.isSome ∧ firstTurn.OwnRow) ∧
    firstTurn.state.hasStatus firstTurn.thread.id .inPosition ∧ firstTurn.thread.attention ≠ some .entryRemainder := by
  decide +kernel

theorem firstPoll_poll : @Poll oneDigest Unit (stateAfter adoptMoves).later () firstPoll.1
    firstPoll.2.1 firstPoll.2.2 () :=
  let := oneDigest
  Poll.of_play _ _ _ _

end scripts

section
variable [Host] {ω : Type} {pvs : List (PassVisit ω)} {v : PassVisit ω}

/-- In every run of polls a missing stop that is due is acted upon exactly when no flag silences
it, its price is not the empty text, and the thread is judged by its own row. -/
theorem missing_stop_acted_on_iff (h : PollRun pvs) (hv : v ∈ pvs) (hm : v.MissesStop)
    (hd : v.Due) : v.Acts ↔ ¬v.Silent ∧ v.thread.stopText.isSome ∧ v.OwnRow := by
  have hr := h.runs hv
  constructor
  · intro ha
    by_cases ho : v.OwnRow
    · refine ⟨fun hs => (PassVisit.idle_of_row hm hr ho (.inl hs)).1 ha,?_,ho⟩
      by_contra hp
      exact (PassVisit.idle_of_row hm hr ho (.inr (.inr (by simpa using hp)))).1 ha
    · exact absurd ha (PassVisit.not_acts_of_foreign hm hr ho)
  · rintro ⟨hs,hp,ho⟩
    obtain ⟨p,hp⟩ := Option.isSome_iff_exists.mp hp
    exact PassVisit.acts_of_due hm hr ho hs hd hp

end

theorem first_missing_stop_acted_on : firstTurn.Acts :=
  let := oneDigest
  (missing_stop_acted_on_iff (.poll firstPoll_poll .nil) (List.mem_append_left _ (onlyTurn_mem _))
    turns_missStop.1 firstTurn_open.1).mpr firstTurn_open.2.1

theorem missing_stop_not_retried : ¬∀ (h : Host) (pvs : List (PassVisit Unit)), @PollRun h Unit pvs →
    ∀ v ∈ pvs, v.MissesStop → v.Due → v.Acts := by
  intro hall
  let := oneDigest
  have hrun : PollRun (firstPoll.1++(secondPoll.1++[])) :=
    .poll firstPoll_poll (.poll (Poll.of_play _ _ _ _) .nil)
  have hv : secondTurn ∈ firstPoll.1++(secondPoll.1++[]) :=
    List.mem_append_right _ (List.mem_append_left _ (onlyTurn_mem _))
  exact absurd (hall oneDigest _ hrun _ hv turns_missStop.2.1 (by decide +kernel))
    (by decide +kernel)

section
variable [Host] {ω : Type} {pvs : List (PassVisit ω)} {v : PassVisit ω}

/-- In every run of polls, a thread whose stored position has lost its stop is protected,
flattened or closed by its turn exactly when it is not in the middle of an entry's remainder and,
if it is judged by its own row, no flag silences it, an attempt is due and it has a price. -/
theorem unprotected_thread_resolved_iff (h : PollRun pvs) (hv : v ∈ pvs) (hm : v.MissesStop)
    (hs : v.state.hasStatus v.thread.id .inPosition) : v.Acts ∨ v.Closes ↔
      (v.thread.attention=some .entryRemainder → v.thread.entryClientOrderId=none) ∧
      (v.OwnRow → ¬v.Silent ∧ v.Due ∧ v.thread.stopText.isSome) := by
  have hr := h.runs hv
  by_cases hrem : v.thread.attention=some .entryRemainder → v.thread.entryClientOrderId=none
  · by_cases ho : v.OwnRow
    · constructor
      · intro ha
        refine ⟨hrem,fun _ => ?_⟩
        by_contra hn
        have hi : v.Silent ∨ ¬v.Due ∨ v.thread.stopText=none := by
          rw [← Option.not_isSome_iff_eq_none]
          tauto
        obtain ⟨h₁,h₂⟩ := PassVisit.idle_of_row hm hr ho hi
        exact ha.elim h₁ h₂
      · rintro ⟨-,hcond⟩
        obtain ⟨hsil,hd,hp⟩ := hcond ho
        obtain ⟨p,hp⟩ := Option.isSome_iff_exists.mp hp
        exact .inl (PassVisit.acts_of_due hm hr ho hsil hd hp)
    · obtain ⟨-,s',hc,he⟩ := PassVisit.closes_of_foreign hm hr ho hrem
      refine iff_of_true (.inr ⟨_,_,_,s',he,?_,hc⟩) ⟨hrem,fun h => absurd h ho⟩
      rintro ⟨t,ht,hst⟩
      obtain ⟨u,hu,hin⟩ := hs
      rw [ht] at hu
      cases hu
      rw [hst] at hin
      cases hin
  · obtain ⟨ha,hc⟩ := Classical.not_imp.mp hrem
    obtain ⟨cid,hc⟩ := Option.ne_none_iff_exists'.mp hc
    obtain ⟨h₁,h₂⟩ := PassVisit.idle_of_remainder hm hr ha hc
    exact iff_of_false (not_or.mpr ⟨h₁,h₂⟩) fun h => hrem h.1

end

theorem first_unprotected_resolved : firstTurn.Acts ∨ firstTurn.Closes :=
  let := oneDigest
  have ⟨hdue,⟨hsilent,hprice,_⟩,hposition,hremainder⟩ := firstTurn_open
  (unprotected_thread_resolved_iff (.poll firstPoll_poll .nil)
    (List.mem_append_left _ (onlyTurn_mem _)) turns_missStop.1 hposition).mpr
    ⟨fun h => absurd h hremainder,fun _ => ⟨hsilent,hdue,hprice⟩⟩

theorem failed_close_left_unprotected : ¬∀ (h : Host) (s : Runtime), @Reachable h s →
    s.halted=false → ∀ (pvs : List (PassVisit Unit)) (x : Except String Unit) (s' : Runtime),
      @Poll h Unit s () pvs x s' () → ∀ v ∈ pvs, v.MissesStop →
        v.state.hasStatus v.thread.id .inPosition → v.Acts ∨ v.Closes := by
  intro hall
  let := oneDigest
  have hreach : Reachable (stateAfter (failedCloseMoves++[.drift Runtime.later id])) :=
    reachable_of_play ⟨trivial,trivial,trivial,trivial,trivial,trivial,trivial,trivial,trivial,
      trivial,fun _ => ⟨61000,rfl⟩⟩
  have hpoll : Poll _ () pollAfterFailedClose.1 _ _ () := Poll.of_play _ _ _ _
  have hv : turnAfterFailedClose ∈ pollAfterFailedClose.1 := onlyTurn_mem _
  obtain ⟨h₁,h₂⟩ := PassVisit.idle_of_row turns_missStop.2.2 (hpoll.runs hv)
    (by decide +kernel) (.inl (by decide +kernel))
  exact (hall oneDigest _ hreach (by decide +kernel) _ _ _ hpoll _ hv
    turns_missStop.2.2 (by decide +kernel)).elim h₁ h₂

end TradeGate
