import TradeGate.Model.Heartbeat

/-! The queue of a scanner: which scans are queued or running without an answer yet. -/
namespace TradeGate

namespace BrainQueue

variable {q : BrainQueue} {job j : Job} {key : String} {priority : Bool}

theorem isBusy_iff : q.isBusy key ↔ (∃ j, q.running=some j ∧ j.key=key) ∨ ∃ j ∈ q.pending, j.key=key := by
  simp [isBusy,Option.mem_def]

/-- With no job running there is none pending. -/
def Drained (q : BrainQueue) : Prop := q.running=none → q.pending=[]

/-- A new job runs at once or waits with the others. -/
theorem enqueue_cases (job : Job) (priority : Bool) (hq : q.Drained) : q.isBusy job.key ∧ (q.enqueue job priority).2=q ∨
    ¬q.isBusy job.key ∧ (q.running=none ∧ (q.enqueue job priority).2.running=some job ∧
        (q.enqueue job priority).2.pending=[] ∨
      ∃ r, q.running=some r ∧ (q.enqueue job priority).2.running=some r ∧
        ∀ j, j ∈ (q.enqueue job priority).2.pending ↔ j=job ∨ j ∈ q.pending) := by
  by_cases hbusy : q.isBusy job.key
  · exact .inl ⟨hbusy,by rw [enqueue,if_pos hbusy]⟩
  · refine .inr ⟨hbusy,?_⟩
    rw [enqueue,if_neg hbusy]
    cases hr : q.running with
    | none =>
      left
      have hp := hq hr
      cases priority <;> simp [drain,hp]
    | some r =>
      right
      refine ⟨r,rfl,?_⟩
      cases priority <;> simp [drain,or_comm]

theorem drained_enqueue (hq : q.Drained) : (q.enqueue job priority).2.Drained := by
  rcases enqueue_cases job priority hq with ⟨-,h⟩|⟨-,⟨-,h,-⟩|⟨r,-,h,-⟩⟩
  · rw [h]
    exact hq
  · intro hnone
    rw [h] at hnone
    cases hnone
  · intro hnone
    rw [h] at hnone
    cases hnone

end BrainQueue

namespace Heartbeat.Scanner

variable {s : Scanner} {job : Job} {sym : String} {priority : Bool}

theorem scanKey_inj {a b : String} (h : scanKey a=scanKey b) : a=b := by
  have := congrArg String.toList h
  exact String.toList_inj.mp (by simpa [scanKey] using this)

theorem reviewJob_key (t : OpenThread) (sym : String) : (reviewJob t).key ≠ scanKey sym := by
  intro h
  have := congrArg String.toList h
  simp [reviewJob,scanKey] at this

/-- The queue is at work, and its scans are of their symbols. -/
structure Orderly (s : Scanner) : Prop where
  drained : s.queue.Drained
  fetching : s.queue.running=none → s.stage=.fetching
  pending : ∀ j ∈ s.queue.pending, ∀ sym, j.key=scanKey sym → j.kind=.scan ∧ j.symbol=some sym
  running : ∀ j, s.queue.running=some j → ∀ sym, j.key=scanKey sym → j.kind=.scan ∧ j.symbol=some sym

/-- A scan of the symbol is queued, or runs and has no answer yet. -/
def Unanswered (s : Scanner) (sym : String) : Prop :=
  (∃ j ∈ s.queue.pending, j.key=scanKey sym) ∨
    (∃ j, s.queue.running=some j ∧ j.key=scanKey sym) ∧ s.stage ≠ .judged

theorem Unanswered.busy (h : s.Unanswered sym) : s.queue.isBusy (scanKey sym) := by
  rw [BrainQueue.isBusy_iff]
  rcases h with h|⟨h,-⟩
  · exact .inr h
  · exact .inl h

section
variable (hs : s.Orderly)
include hs

theorem Orderly.enqueue (hjob : ∀ sym, job.key=scanKey sym → job.kind=.scan ∧ job.symbol=some sym) :
    (s.enqueue job priority).2.Orderly := by
  have hd : (s.enqueue job priority).2.queue.Drained := BrainQueue.drained_enqueue hs.drained
  rcases BrainQueue.enqueue_cases job priority hs.drained with
    ⟨-,h⟩|⟨-,⟨hn,hr,hp⟩|⟨r,hn,hr,hp⟩⟩
  · refine ⟨hd,?_,?_,?_⟩ <;> dsimp only [Scanner.enqueue,moves] <;> rw [h]
    · exact hs.fetching
    · exact hs.pending
    · exact hs.running
  · refine ⟨hd,?_,?_,?_⟩ <;> dsimp only [Scanner.enqueue,moves]
    · exact fun _ => hs.fetching hn
    · simp [hp]
    · intro j hj
      rw [hr,Option.some.injEq] at hj
      exact hj ▸ hjob
  · refine ⟨hd,?_,?_,?_⟩ <;> dsimp only [Scanner.enqueue,moves]
    · simp [hr]
    · intro j hj
      rcases (hp j).mp hj with rfl|hj
      · exact hjob
      · exact hs.pending j hj
    · intro j hj
      exact hs.running j (by rw [hn,← hr,hj])

/-- A new job leaves what is unanswered unanswered. -/
theorem Orderly.unanswered_enqueue (h : s.Unanswered sym) :
    (s.enqueue job priority).2.Unanswered sym := by
  rcases BrainQueue.enqueue_cases job priority hs.drained with
    ⟨-,he⟩|⟨-,⟨hn,hr,hp⟩|⟨r,hn,hr,hp⟩⟩
  · rw [Unanswered]
    dsimp only [Scanner.enqueue,moves]
    rw [he]
    exact h
  · rcases h with ⟨j,hj,-⟩|⟨⟨j,hj,-⟩,-⟩
    · rw [hs.drained hn] at hj
      cases hj
    · rw [hn] at hj
      cases hj
  · rcases h with ⟨j,hj,hk⟩|⟨⟨j,hj,hk⟩,hstage⟩
    · exact .inl ⟨j,(hp j).mpr (.inr hj),hk⟩
    · exact .inr ⟨⟨j,by dsimp only [Scanner.enqueue,moves]; rw [hr,← hn,hj],hk⟩,hstage⟩

/-- A scan that was let in has no answer yet. -/
theorem Orderly.unanswered_scan (hidle : ¬s.queue.isBusy (scanKey sym)) :
    (s.enqueue (scanJob sym) priority).2.Unanswered sym := by
  rcases BrainQueue.enqueue_cases (scanJob sym) priority hs.drained with
    ⟨hbusy,-⟩|⟨-,⟨hn,hr,hp⟩|⟨r,hn,hr,hp⟩⟩
  · exact absurd hbusy hidle
  · refine .inr ⟨⟨scanJob sym,hr,rfl⟩,?_⟩
    dsimp only [Scanner.enqueue,moves]
    rw [hs.fetching hn]
    decide
  · exact .inl ⟨scanJob sym,(hp _).mpr (.inl rfl),rfl⟩

end

end Heartbeat.Scanner
end TradeGate

/-! When a heartbeat is skipped.  The picture is recorded before the scan is tried, so a scan that is
refused, or whose episode fails, silences its symbol all the same. -/
namespace TradeGate.Heartbeat
open Js

/-- Since the stored picture was computed, an episode of the symbol was judged and no pass produced
another picture. -/
def Warranted (sym f : String) (past : List Happening) : Prop :=
  ∃ later earlier, past=later ++ .asked sym f::earlier ∧ .judged sym ∈ later ∧
    ∀ f', .produced sym f' ∈ later → f'=f

/-- Every heartbeat that was skipped was skipped with good reason. -/
def Justified (trace : List Happening) : Prop :=
  ∀ later sym f earlier, trace=later ++ .skipped sym f::earlier → Warranted sym f earlier

theorem justified_append {trace : List Happening} (new : List Happening) (h : Justified trace)
    (hnew : ∀ sym f, .skipped sym f ∉ new) : Justified (new ++ trace) := by
  intro later sym f earlier heq
  rcases List.append_eq_append_iff.mp heq with ⟨mid,rfl,hmid⟩|⟨mid,hnewmid,hmid⟩
  · exact h mid sym f earlier hmid
  · cases mid with
    | nil => exact h [] sym f earlier hmid.symm
    | cons x mid =>
      rw [List.cons_append,List.cons.injEq] at hmid
      refine absurd ?_ (hnew sym f)
      rw [hnewmid,← hmid.1]
      simp

namespace Scanner

variable {s s' : Scanner} {c : Close} {sym f : String}

/-- What a pass asks of a symbol with a picture: one that has no trigger and is not due still looks the
same; any other has no scan queued or running, and if it is to be scanned the scan is let in. -/
def Ready (s : Scanner) (c : Close) (sym : String) : Prop :=
  ∀ f, s.fingerprint c.session sym=some f →
    if c.hits sym=[] ∧ ¬s.heartbeatDue sym then ∀ g, s.lastAskFingerprint sym=some g → g=f
    else ¬s.queue.isBusy (scanKey sym) ∧
      (c.hits sym ≠ [] ∨ s.lastAskFingerprint sym ≠ some f → s.mayScan sym)

/-- The pass finds each watched symbol ready when its turn comes: after the reviews that the pass asks for
and the scans of the symbols before it. -/
def ReadyInTurn (s : Scanner) (c : Close) : Prop :=
  let s := c.openAtStart.foldl (reviewOpen c) (s.fetch c)
  Machine.Throughout (watch c) (fun s sym => (∀ t ∈ c.openAtStart, t.symbol ≠ sym) → s.Ready c sym) s
    s.world.watchlist

/-- The passes find their symbols ready, and a scan that has begun is judged before it ends. -/
def Answered (s : Scanner) : Event → Prop
  | .close c => ¬s.world.paused → ¬s.world.halted → s.world.triggered → s.ReadyInTurn c
  | .settles => ∀ j, s.queue.running=some j → j.kind=.scan → s.stage=.judged
  | _ => True

/-- The stored picture of a symbol has been answered since, or is about to be. -/
def Backed (s : Scanner) (sym f : String) : Prop :=
  ∃ later earlier, s.trace=later ++ .asked sym f::earlier ∧ (∀ f', .produced sym f' ∈ later → f'=f) ∧
    (.judged sym ∈ later ∨ s.Unanswered sym)

structure Sound (s : Scanner) : Prop where
  orderly : s.Orderly
  backed : ∀ sym f, s.lastAskFingerprint sym=some f → s.Backed sym f
  justified : Justified s.trace

theorem Backed.extend (h : s.Backed sym f) (new : List Happening) (ht : s'.trace=new ++ s.trace)
    (hnew : ∀ f', .produced sym f' ∈ new → f'=f)
    (hun : s.Unanswered sym → .judged sym ∈ new ∨ s'.Unanswered sym) : s'.Backed sym f := by
  obtain ⟨later,earlier,hs,hsame,hj⟩ := h
  refine ⟨new ++ later,earlier,by rw [ht,hs,List.append_assoc],?_,?_⟩
  · intro f' hf'
    rcases List.mem_append.mp hf' with hf'|hf'
    · exact hnew f' hf'
    · exact hsame f' hf'
  · rcases hj with hj|hj
    · exact .inl (List.mem_append_right _ hj)
    · exact (hun hj).imp_left (List.mem_append_left _)

/-- The same pictures and trace, and nothing unanswered lost. -/
theorem Sound.of_queue (h : s.Sound) (ho : s'.Orderly) (ht : s'.trace=s.trace)
    (hl : s'.lastAskFingerprint=s.lastAskFingerprint)
    (hun : ∀ sym, s.Unanswered sym → s'.Unanswered sym) : s'.Sound := by
  refine ⟨ho,fun sym f hf => ?_,ht ▸ h.justified⟩
  rw [hl] at hf
  exact (h.backed sym f hf).extend [] ht (by simp) fun hu => .inr (hun sym hu)

theorem Sound.enqueue (h : s.Sound) (job : Job) {priority : Bool}
    (hjob : ∀ sym, job.key=scanKey sym → job.kind=.scan ∧ job.symbol=some sym) :
    (s.enqueue job priority).2.Sound :=
  h.of_queue (h.orderly.enqueue hjob) rfl rfl fun _ => h.orderly.unanswered_enqueue

theorem scanJob_key {sym' : String} (h : (scanJob sym).key=scanKey sym') :
    (scanJob sym).kind=.scan ∧ (scanJob sym).symbol=some sym' := by
  rw [scanKey_inj h]
  exact ⟨rfl,rfl⟩

theorem Sound.scan (h : s.Sound) : (s.scan sym).2.Sound := by
  unfold Scanner.scan
  split
  · exact h.enqueue _ fun _ => scanJob_key
  · exact h

theorem Sound.reviewThread {id : String} (h : s.Sound) : (s.reviewThread id).2.Sound := by
  unfold Scanner.reviewThread
  split
  · exact h
  · split
    · exact h
    · exact h.enqueue _ fun sym hk => absurd hk (reviewJob_key _ sym)

/-! A pass. -/

theorem Sound.fetch (h : s.Sound) (c : Close) : (s.fetch c).Sound :=
  h.of_queue ⟨h.orderly.drained,h.orderly.fetching,h.orderly.pending,h.orderly.running⟩ rfl rfl
    fun _ hu => hu

theorem reviewOpen_sound (h : s.Sound) (c : Close) (t : OpenThread) : (reviewOpen c s t).Sound := by
  unfold reviewOpen
  split
  · exact h.reviewThread
  · exact h

/-- The reviews of a pass change nothing it decides by but the count of the day's judgments. -/
theorem reviewOpen_world (c : Close) (s : Scanner) (t : OpenThread) : ∃ n,
    (reviewOpen c s t).world={ s.world with judgmentsToday := n } := by
  unfold reviewOpen reviewThread
  split
  · split
    · exact ⟨_,rfl⟩
    · split
      · exact ⟨_,rfl⟩
      · exact ⟨_,rfl⟩
  · exact ⟨_,rfl⟩

theorem reviews_sound (h : s.Sound) (c : Close) (ts : List OpenThread) :
    (ts.foldl (reviewOpen c) s).Sound ∧
      ∃ n, (ts.foldl (reviewOpen c) s).world={ s.world with judgmentsToday := n } := by
  induction ts generalizing s with
  | nil => exact ⟨h,_,rfl⟩
  | cons t ts ih =>
    obtain ⟨n,hn⟩ := reviewOpen_world c s t
    obtain ⟨hts,m,hm⟩ := ih (reviewOpen_sound h c t)
    exact ⟨hts,m,by rw [List.foldl_cons,hm,hn]⟩

theorem scanAll_sound (h : s.Sound) : s.scanAll.Sound := by
  unfold scanAll
  generalize s.world.watchlist=syms
  induction syms generalizing s with
  | nil => exact h
  | cons sym syms ih => exact ih h.scan

/-- A picture that no pass has computed before: the stored one of the symbol stays backed if it is the
same. -/
theorem Sound.produce (h : s.Sound) (hsame : ∀ g, s.lastAskFingerprint sym=some g → g=f) :
    (s.produce sym (some f)).Sound where
  orderly := ⟨h.orderly.drained,h.orderly.fetching,h.orderly.pending,h.orderly.running⟩
  backed := by
    intro sym' g hg
    refine (h.backed sym' g hg).extend [.produced sym f] rfl ?_ .inr
    intro f' hf'
    rw [List.mem_singleton,Happening.produced.injEq] at hf'
    obtain ⟨rfl,rfl⟩ := hf'
    exact (hsame g hg).symm
  justified := justified_append [.produced sym f] h.justified (by simp)

/-- The same queue at the same stage. -/
theorem Orderly.of_queue (h : s.Orderly) (hq : s'.queue=s.queue) (hstage : s'.stage=s.stage) :
    s'.Orderly := by
  refine ⟨?_,?_,?_,?_⟩
  · rw [hq]
    exact h.drained
  · rw [hq,hstage]
    exact h.fetching
  · rw [hq]
    exact h.pending
  · rw [hq]
    exact h.running

theorem unanswered_congr (hq : s'.queue=s.queue) (hstage : s'.stage=s.stage) :
    s'.Unanswered sym ↔ s.Unanswered sym := by
  rw [Unanswered,Unanswered,hq,hstage]

/-- The picture is stored and the scan let in. -/
theorem Sound.ask (h : s.Sound) (hq : s'.queue=s.queue) (hstage : s'.stage=s.stage)
    (ht : s'.trace=[.asked sym f,.produced sym f] ++ s.trace)
    (hl : s'.lastAskFingerprint=Function.update s.lastAskFingerprint sym (some f))
    (hidle : ¬s.queue.isBusy (scanKey sym)) (hmay : s'.mayScan sym) : (s'.scan sym).2.Sound := by
  have ho := h.orderly.of_queue hq hstage
  rw [Scanner.scan,if_pos hmay]
  refine ⟨ho.enqueue fun _ => scanJob_key,?_,?_⟩
  · intro sym' g hg
    change s'.lastAskFingerprint sym'=some g at hg
    rw [hl] at hg
    by_cases hsym : sym'=sym
    · subst hsym
      rw [Function.update_self,Option.some.injEq] at hg
      subst hg
      exact ⟨[],.produced sym' f::s.trace,ht,by simp,.inr (ho.unanswered_scan (hq ▸ hidle))⟩
    · rw [Function.update_of_ne hsym] at hg
      refine (h.backed sym' g hg).extend [.asked sym f,.produced sym f] ht ?_ ?_
      · intro f' hf'
        simp [hsym] at hf'
      · exact fun hu => .inr (ho.unanswered_enqueue ((unanswered_congr hq hstage).mpr hu))
  · change Justified s'.trace
    rw [ht]
    exact justified_append _ h.justified (by simp)

theorem Sound.skip (h : s.Sound) (hstored : s.lastAskFingerprint sym=some f)
    (hidle : ¬s.queue.isBusy (scanKey sym)) : (s.skip sym f).Sound where
  orderly := h.orderly.of_queue rfl rfl
  backed := fun sym' g hg => (h.backed sym' g hg).extend [.skipped sym f] rfl (by simp) .inr
  justified := by
    intro later sym' g earlier heq
    cases later with
    | nil =>
      obtain ⟨hx,rfl⟩ := List.cons.inj heq
      obtain ⟨rfl,rfl⟩ := Happening.skipped.inj hx
      obtain ⟨later,earlier,hs,hsame,hj⟩ := h.backed sym f hstored
      exact ⟨later,earlier,hs,hj.resolve_right fun hu => hidle hu.busy,hsame⟩
    | cons x later =>
      obtain ⟨-,heq⟩ := List.cons.inj heq
      exact h.justified later sym' g earlier heq

theorem watch_sound (h : s.Sound) (hr : (∀ t ∈ c.openAtStart, t.symbol ≠ sym) → s.Ready c sym) :
    (watch c s sym).Sound := by
  unfold watch
  split
  · exact h
  next hopen =>
    push Not at hopen
    have hready := hr hopen
    cases hfp : s.fingerprint c.session sym with
    | none =>
      dsimp only [Scanner.produce,remember]
      split
      · exact h.scan
      · split
        · exact (show (s.forgetSkips sym).Sound from h.of_queue (h.orderly.of_queue rfl rfl) rfl rfl
            fun _ hu => hu).scan
        · exact h
    | some f =>
      have hask := hready f hfp
      dsimp only
      split
      next hhits =>
        rw [if_neg fun hc => hhits hc.1] at hask
        exact h.ask rfl rfl rfl rfl hask.1 (hask.2 (.inl hhits))
      next hhits =>
        split
        next hdue =>
          rw [if_neg fun hc => hc.2 hdue] at hask
          split
          next hstored =>
            have hp : (s.produce sym (some f)).Sound := h.produce fun g hg =>
              Option.some.inj (hg.symm.trans hstored)
            exact hp.skip hstored hask.1
          next hstored => exact h.ask rfl rfl rfl rfl hask.1 (hask.2 (.inr hstored))
        next hdue =>
          rw [if_pos ⟨not_not.mp hhits,hdue⟩] at hask
          exact h.produce hask

theorem close_sound (h : s.Sound) (hc : Answered s (.close c)) : (s.onKlineClose c).Sound := by
  obtain ⟨hs,n,hworld⟩ := reviews_sound (h.fetch c) c c.openAtStart
  have hsame : (s.fetch c).world=s.world := rfl
  unfold onKlineClose
  dsimp only
  split
  · exact hs
  next hgo =>
    rw [hworld,hsame] at hgo
    split
    · exact scanAll_sound hs
    next htriggered =>
      rw [hworld,hsame] at htriggered
      refine Machine.run_invariant (I := Sound) (fun s sym h hr => watch_sound h hr) hs ?_
      exact hc (fun hp => hgo (.inl hp)) (fun hh => hgo (.inr hh)) (not_not.mp htriggered)

/-! Episodes, and whole runs. -/

theorem Sound.calls (h : s.Sound) : s.calls.Sound := by
  unfold Scanner.calls
  split
  · exact h
  next sym hep =>
    split
    next hstage =>
      obtain ⟨j,hj,-⟩ := Option.bind_eq_some_iff.mp hep
      refine h.of_queue ⟨h.orderly.drained,?_,h.orderly.pending,h.orderly.running⟩ rfl rfl ?_
      · simp [hj]
      · rintro sym' (hu|⟨hu,-⟩)
        · exact .inl hu
        · exact .inr ⟨hu,show Stage.called ≠ .judged by decide⟩
    · exact h

theorem Sound.answers (h : s.Sound) : s.answers.Sound := by
  unfold Scanner.answers
  split
  · exact h
  next sym hep =>
    split
    next hstage =>
      obtain ⟨j,hj,hjs⟩ := Option.bind_eq_some_iff.mp hep
      refine ⟨⟨h.orderly.drained,by simp [hj],h.orderly.pending,h.orderly.running⟩,?_,?_⟩
      · intro sym' g hg
        refine (h.backed sym' g hg).extend [.judged sym] rfl (by simp) ?_
        rintro (hu|⟨⟨i,hi,hk⟩,-⟩)
        · exact .inr (.inl hu)
        · left
          rw [hj,Option.some.injEq] at hi
          subst hi
          have := (h.orderly.running j hj sym' hk).2
          rw [hjs,Option.some.injEq] at this
          simp [this]
      · exact justified_append [.judged sym] h.justified (by simp)
    · exact h

theorem Sound.settles (h : s.Sound) (hc : Answered s .settles) : s.settles.Sound := by
  have hq : s.settles.queue=s.queue.settle := rfl
  cases hr : s.queue.running with
  | none =>
    have hsame : s.queue.settle=s.queue := by simp [BrainQueue.settle,hr]
    refine h.of_queue (h.orderly.of_queue (hq.trans hsame) (h.orderly.fetching hr).symm) rfl rfl ?_
    exact fun sym hu => (unanswered_congr (hq.trans hsame) (h.orderly.fetching hr).symm).mpr hu
  | some r =>
    cases hp : s.queue.pending with
    | nil =>
      have hs : s.queue.settle.running=none ∧ s.queue.settle.pending=[] := by
        simp [BrainQueue.settle,BrainQueue.drain,hr,hp]
      refine h.of_queue ⟨fun _ => by rw [hq,hs.2],fun _ => rfl,by simp [hq,hs.2],by simp [hq,hs.1]⟩ rfl rfl ?_
      rintro sym (⟨j,hj,-⟩|⟨⟨j,hj,hk⟩,hstage⟩)
      · rw [hp] at hj
        cases hj
      · exact absurd (hc j hj (h.orderly.running j hj sym hk).1) hstage
    | cons next rest =>
      have hs : s.queue.settle.running=some next ∧ s.queue.settle.pending=rest := by
        simp [BrainQueue.settle,BrainQueue.drain,hr,hp]
      have hmem : ∀ j ∈ rest, j ∈ s.queue.pending := fun j hj => hp ▸ List.mem_cons_of_mem _ hj
      refine h.of_queue ⟨fun hn => ?_,fun _ => rfl,?_,?_⟩ rfl rfl ?_
      · rw [hq,hs.1] at hn
        cases hn
      · rw [hq,hs.2]
        exact fun j hj => h.orderly.pending j (hmem j hj)
      · rw [hq,hs.1]
        rintro j ⟨rfl⟩
        exact h.orderly.pending next (hp ▸ List.mem_cons_self)
      · rintro sym (⟨j,hj,hk⟩|⟨⟨j,hj,hk⟩,hstage⟩)
        · rw [hp] at hj
          rcases List.mem_cons.mp hj with rfl|hj
          · exact .inr ⟨⟨j,hs.1,hk⟩,show Stage.fetching ≠ .judged by decide⟩
          · exact .inl ⟨j,by rw [hq,hs.2]; exact hj,hk⟩
        · exact absurd (hc j hj (h.orderly.running j hj sym hk).1) hstage

theorem step_sound (h : s.Sound) {e : Event} (he : Answered s e) : (step s e).Sound := by
  cases e with
  | close c => exact close_sound h he
  | scan sym => exact h.scan
  | review id => exact h.reviewThread
  | info => exact h.enqueue _ fun sym hk => absurd (congrArg String.toList hk) (by simp [scanKey])
  | chat now number session text =>
    exact h.enqueue (⟨"chat:" ++ toString now,.chat,none,some ⟨number,session,text⟩⟩)
      fun sym hk => absurd (congrArg String.toList hk) (by simp [scanKey])
  | calls => exact h.calls
  | answers => exact h.answers
  | settles => exact h.settles he
  | world w => exact h.of_queue (h.orderly.of_queue rfl rfl) rfl rfl fun _ hu => hu

theorem sound_start (w : World) : (start w).Sound where
  orderly := ⟨fun _ => rfl,fun _ => rfl,by simp [start,BrainQueue.empty],by simp [start,BrainQueue.empty]⟩
  backed _ _ h := by cases h
  justified := by
    intro later sym f earlier h
    simp [start] at h

/-- If the passes find their symbols ready and every scan is judged, heartbeats are skipped with good
reason only. -/
theorem skips_justified (w : World) (es : List Event)
    (h : Machine.Throughout step Answered (start w) es) : Justified (run (start w) es).trace :=
  (Machine.run_invariant (I := Sound) (fun _ _ h he => step_sound h he) (sound_start w) h).justified

/-! Runs of one symbol. -/

def sampleWorld (judgmentsToday now : ℕ) : World where
  now := now
  halted := false
  paused := false
  triggered := true
  reviewEveryClose := false
  watchlist := ["BTCUSDT"]
  heartbeatEveryMs := 1800000
  dailyJudgmentCap := 300
  judgmentsToday := judgmentsToday
  openThreads := []
  marketStateId := none
  regime _ := none

def sampleFeatures (tf : String) : TfFeatures :=
  ⟨tf,.fin 100,.fin 99,.fin 98,.fin 1,.fin 104,.fin 96,.fin 1⟩

/-- A pass without a trigger. -/
def sampleClose : Close := ⟨"asia",[],fun _ => some ⟨sampleFeatures "15m",sampleFeatures "1h",[]⟩,fun _ => false⟩

def samplePicture : String := "15m:upa:atr2:rmid:v1|1h:upa|ms:-|s:asia|rg:-"

/-- The scan of the first pass is refused for the daily cap.  On the next day the picture is the same,
and the symbol is skipped although no model has ever seen it. -/
theorem refused_then_skipped :
    let s := run (start (sampleWorld 300 1800000))
      [.close sampleClose,.world (sampleWorld 0 100000000),.close sampleClose]
    s.trace.head?=some (.skipped "BTCUSDT" samplePicture) ∧ .judged "BTCUSDT" ∉ s.trace ∧
      ¬Justified s.trace := by
  have hskip : (run (start (sampleWorld 300 1800000))
      [.close sampleClose,.world (sampleWorld 0 100000000),.close sampleClose]).trace=
        [.skipped "BTCUSDT" samplePicture,.produced "BTCUSDT" samplePicture,
          .asked "BTCUSDT" samplePicture,.produced "BTCUSDT" samplePicture] := by decide +kernel
  dsimp only
  rw [hskip]
  refine ⟨rfl,by simp,fun h => ?_⟩
  obtain ⟨later,earlier,heq,hj,-⟩ := h [] _ _ _ rfl
  have : Happening.judged "BTCUSDT" ∈ later ++ .asked "BTCUSDT" samplePicture::earlier :=
    List.mem_append_left _ hj
  rw [← heq] at this
  simp at this

/-- In one pass the first scan takes the last judgment of the day, and the second is refused with its
picture stored. -/
example : let s := onKlineClose (start { sampleWorld 299 1800000 with
      watchlist := ["BTCUSDT","ETHUSDT"] }) sampleClose
    s.lastAskFingerprint "ETHUSDT"=some samplePicture ∧ ¬s.queue.isBusy (scanKey "ETHUSDT") := by
  decide +kernel

instance (s : Scanner) (c : Close) (sym : String) : Decidable (s.Ready c sym) :=
  match h : s.fingerprint c.session sym with
  | none => .isTrue fun f hf => by simp [h] at hf
  | some f =>
    decidable_of_iff (if c.hits sym=[] ∧ ¬s.heartbeatDue sym then
        ∀ g ∈ s.lastAskFingerprint sym, g=f
      else ¬s.queue.isBusy (scanKey sym) ∧
        (c.hits sym ≠ [] ∨ s.lastAskFingerprint sym ≠ some f → s.mayScan sym)) (by simp [Ready,h])

instance (s : Scanner) (c : Close) : Decidable (s.ReadyInTurn c) :=
  inferInstanceAs (Decidable (Machine.Throughout (watch c) _ _ _))

instance (s : Scanner) : (e : Event) → Decidable (Answered s e)
  | .close c => inferInstanceAs (Decidable (_ → _ → _ → s.ReadyInTurn c))
  | .settles => inferInstanceAs (Decidable (∀ j ∈ s.queue.running, _ → _))
  | .scan _ | .review _ | .info | .chat .. | .calls | .answers | .world _ => .isTrue trivial

/-- The first scan is judged, and the next heartbeat skipped. -/
theorem judged_then_skipped :
    let s := run (start (sampleWorld 0 1800000)) [.close sampleClose,.calls,.answers,.settles,
      .world (sampleWorld 1 100000000),.close sampleClose]
    s.trace.head?=some (.skipped "BTCUSDT" samplePicture) ∧ Justified s.trace :=
  ⟨by decide +kernel,skips_justified _ _ (by decide +kernel)⟩

end Scanner
end TradeGate.Heartbeat
