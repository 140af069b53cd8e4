import Mathlib.Algebra.BigOperators.Group.List.Basic
import Mathlib.Algebra.Ring.Nat
import TradeGate.Model.Queue

/-! The queue of model calls under every order of calls from its callbacks, of returns and of ends of
jobs: one job at a time, each accepted job once, and no job left waiting. -/
namespace TradeGate.QueueStack

variable {J κ : Type} {key : J → κ}

/-- What every step keeps. -/
structure Sound (key : J → κ) (s : State J) : Prop where
  sole : s.active=s.running.toList
  keys : ((s.running.toList ++ s.pending).map key).Nodup
  once : s.accepted.Perm (s.started ++ s.unstarted)
  woken : s.running=none → s.pending ≠ [] → s.Scheduled

theorem sound_empty : Sound key (State.empty : State J) where
  sole := rfl
  keys := List.nodup_nil
  once := List.Perm.refl _
  woken := by intro _ h; exact absurd rfl h

namespace Sound

variable {s t : State J}

/-- A `drain` keeps what holds but for its being on its way. -/
theorem drain (sole : s.active=s.running.toList)
    (keys : ((s.running.toList ++ s.pending).map key).Nodup)
    (once : s.accepted.Perm (s.started ++ s.unstarted)) : Sound key s.drain := by
  unfold State.drain
  split
  next r hr =>
    refine ⟨sole,keys,once,?_⟩
    intro hnone
    rw [hr] at hnone
    cases hnone
  next hr hp =>
    refine ⟨sole,keys,once,?_⟩
    intro _ hne
    exact absurd hp hne
  next next rest hr hp =>
    rw [hr] at sole keys
    rw [hp] at keys
    constructor
    · have hactive : s.stack.filterMap Frame.job ++ s.suspended=[] := sole
      simp [State.active,Frame.job,hactive]
    · simpa using keys
    · refine once.trans (List.Perm.append_left _ ?_)
      simp only [State.unstarted,hp,Frame.next,List.filterMap_cons]
      exact List.perm_middle
    · intro hnone
      cases hnone

/-- The end of a job leaves a `drain` on its way. -/
theorem finish (idle : s.active=[]) (keys : (s.pending.map key).Nodup)
    (once : s.accepted.Perm (s.started ++ s.unstarted)) : Sound key s.finish where
  sole := by simpa [State.finish,State.active,List.filterMap_cons,Frame.job] using idle
  keys := by simpa [State.finish] using keys
  once := by simpa [State.finish,State.unstarted,List.filterMap_cons,Frame.next] using once
  woken := by
    intro _ _
    exact ⟨.finished,List.mem_cons_self,.inr rfl⟩

theorem keys_pending (h : Sound key s) : (s.pending.map key).Nodup := by
  have hk := h.keys
  rw [List.map_append] at hk
  exact (List.nodup_append.mp hk).2.1

theorem ret (h : Sound key s) (ht : s.ret=some t) : Sound key t := by
  obtain ⟨sole,keys,once,woken⟩ := h
  unfold State.ret at ht
  split at ht
  next => cases ht
  next stack hs =>
    cases ht
    simp only [State.active,State.unstarted,hs,List.filterMap_cons,Frame.job,Frame.next] at sole once
    exact drain sole keys once
  next job stack hs =>
    cases ht
    simp only [State.active,State.unstarted,hs,List.filterMap_cons,Frame.job,Frame.next] at sole once
    refine ⟨by simpa [State.active,List.filterMap_cons,Frame.job] using sole,keys,?_,?_⟩
    · simpa [State.unstarted,List.filterMap_cons,Frame.next] using once
    · intro hnone
      rw [hnone] at sole
      cases sole
  next job stack hs =>
    cases ht
    simp only [State.active,State.unstarted,hs,List.filterMap_cons,Frame.job,Frame.next] at sole once
    cases hr : s.running with
    | none =>
      rw [hr] at sole
      cases sole
    | some r =>
      rw [hr] at sole
      obtain ⟨rfl,hrest⟩ := List.cons.inj sole
      obtain ⟨hstack,hsusp⟩ := List.append_eq_nil_iff.mp hrest
      refine ⟨?_,by simpa [hr] using keys,once,?_⟩
      · simp [State.active,hstack,hsusp]
      · intro hnone
        cases hnone
  next stack hs =>
    cases ht
    simp only [State.active,State.unstarted,hs,List.filterMap_cons,Frame.job,Frame.next] at sole once
    exact drain sole keys once
  next stack hs =>
    cases ht
    simp only [State.active,State.unstarted,hs,List.filterMap_cons,Frame.job,Frame.next] at sole once
    refine ⟨sole,keys,once,?_⟩
    intro hnone hne
    obtain ⟨f,hf,hd⟩ := woken hnone hne
    rw [hs] at hf
    obtain rfl | hf := List.mem_cons.mp hf
    · obtain hd | hd := hd <;> cases hd
    · exact ⟨f,hf,hd⟩

theorem throw (h : Sound key s) (ht : s.throw=some t) : Sound key t := by
  unfold State.throw at ht
  split at ht
  next job stack hs =>
    cases ht
    have sole := h.sole
    have once := h.once
    simp only [State.active,State.unstarted,hs,List.filterMap_cons,Frame.job,Frame.next] at sole once
    refine finish ?_ h.keys_pending once
    cases hr : s.running with
    | none =>
      rw [hr] at sole
      cases sole
    | some r =>
      rw [hr] at sole
      exact (List.cons.inj sole).2
  next => cases ht

theorem settle {i : ℕ} (h : Sound key s) (ht : s.settle i=some t) : Sound key t := by
  unfold State.settle at ht
  split at ht
  next hs =>
    split at ht
    next hi =>
      cases ht
      have sole := h.sole
      simp only [State.active,hs,List.filterMap_nil,List.nil_append] at sole
      refine finish ?_ h.keys_pending h.once
      have hlen : s.suspended.length=1 := by
        cases hr : s.running with
        | none =>
          rw [sole,hr] at hi
          cases hi
        | some r =>
          rw [sole,hr]
          rfl
      simp only [State.active,hs,List.filterMap_nil,List.nil_append]
      apply List.eq_nil_of_length_eq_zero
      rw [List.length_eraseIdx_of_lt hi,hlen]
    next => cases ht
  next => cases ht

theorem enqueue [DecidableEq κ] (h : Sound key s) (job : J) (priority : Bool) :
    Sound key (s.enqueue key job priority).2 := by
  unfold State.enqueue
  split
  next => exact h
  next hbusy =>
    have hnew : key job ∉ (s.running.toList ++ s.pending).map key := by
      intro hmem
      obtain ⟨j,hj,hk⟩ := List.mem_map.mp hmem
      apply hbusy
      rw [Bool.or_eq_true]
      obtain hj | hj := List.mem_append.mp hj
      · left
        rw [Option.mem_toList.mp hj]
        exact decide_eq_true hk
      · exact .inr (List.any_eq_true.mpr ⟨j,hj,decide_eq_true hk⟩)
    refine ⟨by simpa [State.active,List.filterMap_cons,Frame.job] using h.sole,?_,?_,?_⟩
    · have hall : ((job::(s.running.toList ++ s.pending)).map key).Nodup :=
        List.nodup_cons.mpr ⟨hnew,h.keys⟩
      refine (List.Perm.nodup_iff (List.Perm.map key ?_)).mpr hall
      cases priority
      · rw [if_neg (by simp),← List.append_assoc]
        exact (List.perm_append_singleton job _)
      · exact List.perm_middle
    · have hpending : (if priority then job::s.pending else s.pending ++ [job]).Perm
          (s.pending ++ [job]) := by
        cases priority
        · exact List.Perm.refl _
        · exact (List.perm_append_singleton job s.pending).symm
      simp only [State.unstarted,List.filterMap_cons,Frame.next]
      refine (h.once.append_right [job]).trans ?_
      rw [State.unstarted,List.append_assoc,List.append_assoc]
      exact List.Perm.append_left _ (List.Perm.append_left _ hpending.symm)
    · intro _ _
      exact ⟨.enqueued,List.mem_cons_self,.inl rfl⟩

variable [DecidableEq κ]

theorem step {e : Event J} (h : Sound key s) (ht : s.step key e=some t) : Sound key t := by
  cases e with
  | enqueue job priority =>
    cases ht
    exact h.enqueue job priority
  | progress =>
    cases ht
    obtain ⟨sole,keys,once,woken⟩ := h
    refine ⟨by simpa [State.active,List.filterMap_cons,Frame.job] using sole,keys,
      by simpa [State.unstarted,List.filterMap_cons,Frame.next] using once,?_⟩
    intro hnone hne
    obtain ⟨f,hf,hd⟩ := woken hnone hne
    exact ⟨f,List.mem_cons_of_mem _ hf,hd⟩
  | ret => exact h.ret ht
  | throw => exact h.throw ht
  | settle i => exact h.settle ht

theorem run {events : List (Event J)} (h : Sound key s) (ht : s.run key events=some t) :
    Sound key t := by
  induction events generalizing s with
  | nil =>
    cases ht
    exact h
  | cons e events ih =>
    simp only [State.run,List.foldlM_cons,Option.bind_eq_bind,Option.bind_eq_some_iff] at ht
    obtain ⟨u,hu,ht⟩ := ht
    exact ih (h.step hu) ht

end Sound

/-! ### No job is left waiting -/

/-- What is still to be done, job by job. -/
def Frame.weight : Frame J → ℕ
  | .starting _ => 4
  | .inRun _ => 3
  | .enqueued => 1
  | .finished => 1
  | .progressed => 1

namespace State

variable {s t : State J}

/-- A bound on the returns and ends that can follow without a new call. -/
def weight (s : State J) : ℕ :=
  (s.stack.map Frame.weight).sum+2*s.suspended.length+4*s.pending.length

theorem weight_drain_le (s : State J) : s.drain.weight ≤ s.weight := by
  unfold drain
  split
  next => exact Nat.le_refl _
  next => exact Nat.le_refl _
  next next rest _ hp =>
    simp only [weight,hp,List.map_cons,List.sum_cons,Frame.weight,List.length_cons]
    omega

theorem weight_ret (h : s.ret=some t) : t.weight<s.weight := by
  unfold ret at h
  split at h
  next => cases h
  next stack hs =>
    cases h
    refine Nat.lt_of_le_of_lt (weight_drain_le _) ?_
    simp only [weight,hs,List.map_cons,List.sum_cons,Frame.weight]
    omega
  next job stack hs =>
    cases h
    simp only [weight,hs,List.map_cons,List.sum_cons,Frame.weight]
    omega
  next job stack hs =>
    cases h
    simp only [weight,hs,List.map_cons,List.sum_cons,Frame.weight,List.length_cons]
    omega
  next stack hs =>
    cases h
    refine Nat.lt_of_le_of_lt (weight_drain_le _) ?_
    simp only [weight,hs,List.map_cons,List.sum_cons,Frame.weight]
    omega
  next stack hs =>
    cases h
    simp only [weight,hs,List.map_cons,List.sum_cons,Frame.weight]
    omega

theorem weight_throw (h : s.throw=some t) : t.weight<s.weight := by
  unfold throw at h
  split at h
  next job stack hs =>
    cases h
    simp only [weight,finish,hs,List.map_cons,List.sum_cons,Frame.weight]
    omega
  next => cases h

theorem weight_settle {i : ℕ} (h : s.settle i=some t) : t.weight<s.weight := by
  unfold settle at h
  split at h
  next hs =>
    split at h
    next hi =>
      cases h
      simp only [weight,finish,hs,List.map_cons,List.map_nil,List.sum_cons,List.sum_nil,Frame.weight,
        List.length_eraseIdx_of_lt hi]
      omega
    next => cases h
  next => cases h

section
variable [DecidableEq κ]

theorem weight_step {e : Event J} (he : e.Ends) (h : s.step key e=some t) : t.weight<s.weight := by
  cases e with
  | enqueue job priority => exact he.elim
  | progress => exact he.elim
  | ret => exact weight_ret h
  | throw => exact weight_throw h
  | settle i => exact weight_settle h

theorem length_le_weight {events : List (Event J)} (he : ∀ e ∈ events, e.Ends)
    (h : s.run key events=some t) : events.length+t.weight ≤ s.weight := by
  induction events generalizing s with
  | nil =>
    cases h
    simp
  | cons e events ih =>
    simp only [run,List.foldlM_cons,Option.bind_eq_bind,Option.bind_eq_some_iff] at h
    obtain ⟨u,hu,h⟩ := h
    obtain ⟨he,hes⟩ := List.forall_mem_cons.mp he
    have hfirst := weight_step he hu
    have hrest := ih hes h
    rw [List.length_cons]
    omega

/-- Unless the queue is idle, a callback can return or a job can end. -/
theorem exists_ends (h : Sound key s) (hbusy : ¬s.Idle) : ∃ e : Event J, e.Ends ∧ (s.step key e).isSome := by
  cases hs : s.stack with
  | cons f stack =>
    refine ⟨.ret,trivial,?_⟩
    cases f <;> simp [step,ret,hs]
  | nil =>
    refine ⟨.settle 0,trivial,?_⟩
    have sole := h.sole
    simp only [active,hs,List.filterMap_nil,List.nil_append] at sole
    cases hr : s.running with
    | none => exact absurd ⟨hs,hr⟩ hbusy
    | some r => simp [step,settle,hs,sole,hr]

end

end State

section
variable [DecidableEq κ]

/-- In every run at most one job is active, its key and those of the pending jobs differ, a rejected
`enqueue` changes nothing, the accepted jobs are those started and those yet to be, each as often as it
was accepted, and with no job running and no `drain` on its way none is pending.  Without new calls
the queue becomes idle after boundedly many returns and ends of jobs, with each accepted job started. -/
theorem runs_each_once (key : J → κ) (events : List (Event J)) (s : State J)
    (h : State.empty.run key events=some s) :
    s.active.length ≤ 1 ∧ ((s.running.toList ++ s.pending).map key).Nodup ∧
    (∀ job priority, (s.enqueue key job priority).1=false → (s.enqueue key job priority).2=s) ∧
    s.accepted.Perm (s.started ++ s.unstarted) ∧
    (s.running=none → ¬s.Scheduled → s.pending=[]) ∧
    (s.Idle → s.accepted.Perm s.started) ∧
    ∃ n, ∀ more t, (∀ e ∈ more, e.Ends) → s.run key more=some t →
      more.length ≤ n ∧ (t.Idle ∨ ∃ e : Event J, e.Ends ∧ (t.step key e).isSome) := by
  have hs : Sound key s := sound_empty.run h
  have hpending : s.running=none → ¬s.Scheduled → s.pending=[] := by
    intro hnone hsched
    by_contra hne
    exact hsched (hs.woken hnone hne)
  refine ⟨?_,hs.keys,?_,hs.once,hpending,?_,s.weight,?_⟩
  · rw [hs.sole]
    cases s.running <;> simp
  · intro job priority hrej
    unfold State.enqueue at hrej ⊢
    split at hrej
    next hbusy => rw [if_pos hbusy]
    next => cases hrej
  · rintro ⟨hstack,hnone⟩
    have hnil : s.unstarted=[] := by
      rw [State.unstarted,hstack,hpending hnone (by simp [State.Scheduled,hstack])]
      rfl
    have honce := hs.once
    rwa [hnil,List.append_nil] at honce
  · intro more t hmore ht
    have hlen := State.length_le_weight hmore ht
    refine ⟨by omega,?_⟩
    by_cases hidle : t.Idle
    · exact .inl hidle
    · exact .inr (State.exists_ends (hs.run ht) hidle)

/-- A job is enqueued from `onChange`, before the first one starts. -/
theorem runs_each_once_nested : (State.active (J := ℕ)
    ⟨[8],some 7,[.starting 7,.enqueued],[],[7,8],[]⟩).length ≤ 1 :=
  (runs_each_once id [.enqueue 7 false,.enqueue 8 false,.ret] _ rfl).1

end

/-! ### Quiet callbacks

With callbacks that return at once and do not enqueue, a call from outside or the end of a job does to
the queue what `BrainQueue` does in one step. -/

/-- The queue without the calls that have not returned. -/
def State.queue (s : State Job) : BrainQueue := ⟨s.pending,s.running,s.started⟩

/-- A `drain` is scheduled, and its callbacks return one after the other. -/
theorem drain_quiet {f : Frame Job} (hf : f.Drains) (q : BrainQueue) (suspended accepted : List Job) :
    ∃ n t, State.run Job.key ⟨q.pending,q.running,[f],suspended,accepted,q.started⟩
      (List.replicate n .ret)=some t ∧ t.stack=[] ∧ t.queue=q.drain := by
  obtain ⟨pending,running,started⟩ := q
  obtain rfl | rfl := hf <;> cases running <;> cases pending
  case inl.some.nil | inl.some.cons | inr.some.nil | inr.some.cons => exact ⟨1,_,rfl,rfl,rfl⟩
  case inl.none.nil | inr.none.nil => exact ⟨1,_,rfl,rfl,rfl⟩
  case inl.none.cons | inr.none.cons => exact ⟨3,_,rfl,rfl,rfl⟩

theorem enqueue_quiet {s : State Job} (hs : s.stack=[]) (job : Job) (priority : Bool) :
    ∃ n t, s.run Job.key (.enqueue job priority::List.replicate n .ret)=some t ∧ t.stack=[] ∧
      t.queue=(s.queue.enqueue job priority).2 := by
  have hstep : ∀ n, s.run Job.key (.enqueue job priority::List.replicate n .ret)=
      (s.enqueue Job.key job priority).2.run Job.key (List.replicate n .ret) := fun _ => rfl
  have hbusy : ((s.running.any fun j => j.key=job.key) || s.pending.any fun j => j.key=job.key)=true ↔
      s.queue.isBusy job.key := by
    cases hr : s.running <;> simp [State.queue,BrainQueue.isBusy,hr]
  by_cases hb : s.queue.isBusy job.key
  · refine ⟨0,s,?_,hs,?_⟩
    · rw [hstep,State.enqueue,if_pos (hbusy.mpr hb)]
      rfl
    · rw [BrainQueue.enqueue,if_pos hb]
  · obtain ⟨n,t,ht,hstack,hq⟩ := drain_quiet (.inl rfl)
      { s.queue with pending := if priority then job::s.pending else s.pending ++ [job] : BrainQueue }
      s.suspended (s.accepted ++ [job])
    refine ⟨n,t,?_,hstack,?_⟩
    · rw [hstep,State.enqueue,if_neg (mt hbusy.mp hb),hs]
      exact ht
    · rw [BrainQueue.enqueue,if_neg hb,hq]
      rfl

theorem settle_quiet {s : State Job} (hs : s.stack=[]) {r : Job} (hr : s.running=some r)
    (hsusp : s.suspended=[r]) :
    ∃ n t, s.run Job.key (.settle 0::List.replicate n .ret)=some t ∧ t.stack=[] ∧
      t.queue=s.queue.settle := by
  obtain ⟨n,t,ht,hstack,hq⟩ := drain_quiet (.inr rfl) { s.queue with running := none : BrainQueue } []
    s.accepted
  refine ⟨n,t,?_,hstack,?_⟩
  · have hstep : s.step Job.key (.settle 0)=
        some ⟨s.pending,none,[.finished],[],s.accepted,s.started⟩ := by
      simp [State.step,State.settle,State.finish,hs,hsusp]
    rw [State.run,List.foldlM_cons,hstep]
    exact ht
  · rw [hq,BrainQueue.settle,show s.queue.running=some r from hr]

end TradeGate.QueueStack
