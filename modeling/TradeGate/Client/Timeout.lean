import Mathlib.Data.List.Nodup
import TradeGate.Machine.Run
import TradeGate.Model.ExecClient

/-! The frames of requests whose callers were told that they failed. -/
namespace TradeGate.ExecClient
open Machine

/-- The request whose frame is written. -/
def Note.writes : Note → Option ℕ
  | written f => some f.id
  | settled _ _ => none

/-- The request that is given up: its time is over, or the client is closed. -/
def Note.abandons : Note → Option ℕ
  | settled id (.timeout _ _) | settled id .closed => some id
  | _ => none

/-- The second does not write what the first has given up. -/
def Apart (a b : Note) : Prop := ∀ id ∈ a.abandons, b.writes ≠ some id

instance (a b : Note) : Decidable (Apart a b) :=
  decidable_of_iff (∀ id ∈ a.abandons.toList, b.writes ≠ some id) (by simp [Apart])

/-- The requests whose frames were written. -/
def writtenIds (log : List Note) : List ℕ := log.filterMap Note.writes

/-- A frame is written once; what was given up is neither queued nor written later. -/
structure Paced (nextId : ℕ) (pending : List (ℕ × PendingRequest)) (queue : List Frame)
    (log : List Note) : Prop where
  pending : ∀ p ∈ pending, p.1<nextId
  known : ∀ id ∈ writtenIds log++queue.map Frame.id, id<nextId
  once : (writtenIds log++queue.map Frame.id).Nodup
  abandoned : ∀ a ∈ log, ∀ id ∈ a.abandons, id<nextId ∧ id ∉ queue.map Frame.id
  apart : log.Pairwise Apart

namespace Paced

variable {nextId : ℕ} {pending pending' : List (ℕ × PendingRequest)} {queue : List Frame} {log : List Note}

theorem writtenIds_snoc (log : List Note) (f : Frame) :
    writtenIds (log++[.written f])=writtenIds log++[f.id] := by
  simp [writtenIds,Note.writes]

/-- A frame whose request was not given up is written. -/
theorem apart_written (h : Paced nextId pending queue log) {f : Frame}
    (hf : ∀ a ∈ log, f.id ∉ a.abandons) : (log++[Note.written f]).Pairwise Apart := by
  refine List.pairwise_append.mpr ⟨h.apart,List.pairwise_singleton _ _,fun a ha b hb => ?_⟩
  obtain rfl := List.mem_singleton.mp hb
  rintro id hid ⟨⟩
  exact hf a ha hid

/-- A new id is none of those that are known. -/
theorem fresh (h : Paced nextId pending queue log) :
    nextId ∉ writtenIds log++queue.map Frame.id := fun hmem => lt_irrefl _ (h.known _ hmem)

theorem pending_snoc (h : Paced nextId pending queue log) (request : PendingRequest) :
    ∀ p ∈ pending++[(nextId,request)], p.1<nextId+1 := by
  intro p hp
  rcases List.mem_append.mp hp with hp|hp
  · exact Nat.lt_succ_of_lt (h.pending p hp)
  · cases List.mem_singleton.mp hp
    exact Nat.lt_succ_self _

/-- A new request is written at once. -/
theorem write (h : Paced nextId pending queue log) (request : PendingRequest) (method : Method) :
    Paced (nextId+1) (pending++[(nextId,request)]) queue (log++[.written ⟨nextId,method⟩]) := by
  have hids : writtenIds (log++[.written ⟨nextId,method⟩])++queue.map Frame.id=
      writtenIds log++nextId::queue.map Frame.id := by
    rw [writtenIds_snoc,List.append_assoc]
    rfl
  refine ⟨h.pending_snoc request,fun id hid => ?_,?_,fun a ha id hid => ?_,
    h.apart_written fun a ha hid => lt_irrefl _ (h.abandoned a ha _ hid).1⟩
  · rw [hids,List.mem_append,List.mem_cons] at hid
    rcases hid with hid|rfl|hid
    · exact Nat.lt_succ_of_lt (h.known id (List.mem_append_left _ hid))
    · exact Nat.lt_succ_self _
    · exact Nat.lt_succ_of_lt (h.known id (List.mem_append_right _ hid))
  · rw [hids,List.nodup_middle,List.nodup_cons]
    exact ⟨h.fresh,h.once⟩
  · rcases List.mem_append.mp ha with ha|ha
    · obtain ⟨hlt,hq⟩ := h.abandoned a ha id hid
      exact ⟨Nat.lt_succ_of_lt hlt,hq⟩
    · cases List.mem_singleton.mp ha
      cases hid

/-- A new request is queued. -/
theorem enqueue (h : Paced nextId pending queue log) (request : PendingRequest) (method : Method) :
    Paced (nextId+1) (pending++[(nextId,request)]) (queue++[⟨nextId,method⟩]) log := by
  have hids : writtenIds log++(queue++[(⟨nextId,method⟩ : Frame)]).map Frame.id=
      writtenIds log++queue.map Frame.id++[nextId] := by
    rw [List.map_append,List.append_assoc]
    rfl
  refine ⟨h.pending_snoc request,fun id hid => ?_,?_,fun a ha id hid => ?_,h.apart⟩
  · rw [hids,List.mem_append,List.mem_singleton] at hid
    rcases hid with hid|rfl
    · exact Nat.lt_succ_of_lt (h.known id hid)
    · exact Nat.lt_succ_self _
  · rw [hids,List.nodup_middle,List.append_nil,List.nodup_cons]
    exact ⟨h.fresh,h.once⟩
  · obtain ⟨hlt,hq⟩ := h.abandoned a ha id hid
    refine ⟨Nat.lt_succ_of_lt hlt,fun hmem => ?_⟩
    rw [List.map_append,List.mem_append] at hmem
    rcases hmem with hmem|hmem
    · exact hq hmem
    · have := List.mem_singleton.mp hmem
      change id=nextId at this
      omega

/-- The first frame of the queue is written. -/
theorem dequeue {f : Frame} (h : Paced nextId pending (f::queue) log) :
    Paced nextId pending queue (log++[.written f]) := by
  have hids : writtenIds (log++[.written f])++queue.map Frame.id=
      writtenIds log++(f::queue).map Frame.id := by
    rw [writtenIds_snoc,List.append_assoc]
    rfl
  refine ⟨h.pending,hids ▸ h.known,hids ▸ h.once,fun a ha id hid => ?_,h.apart_written fun a ha hid => ?_⟩
  · rcases List.mem_append.mp ha with ha|ha
    · obtain ⟨hlt,hq⟩ := h.abandoned a ha id hid
      exact ⟨hlt,fun hmem => hq (List.mem_cons_of_mem _ hmem)⟩
    · cases List.mem_singleton.mp ha
      cases hid
  · exact (h.abandoned a ha _ hid).2 List.mem_cons_self

/-- A promise ends. -/
theorem settle (h : Paced nextId pending queue log) {id : ℕ} {outcome : Outcome}
    (hpending : ∀ p ∈ pending', p ∈ pending)
    (hout : id ∈ (Note.settled id outcome).abandons → id<nextId ∧ id ∉ queue.map Frame.id) :
    Paced nextId pending' queue (log++[.settled id outcome]) := by
  have hids : writtenIds (log++[.settled id outcome])=writtenIds log := by simp [writtenIds,Note.writes]
  refine ⟨fun p hp => h.pending p (hpending p hp),hids ▸ h.known,hids ▸ h.once,fun a ha id' hid => ?_,?_⟩
  · rcases List.mem_append.mp ha with ha|ha
    · exact h.abandoned a ha id' hid
    · cases List.mem_singleton.mp ha
      have hsame : id'=id := by
        cases outcome <;> simp_all [Note.abandons]
      subst hsame
      exact hout hid
  · refine List.pairwise_append.mpr ⟨h.apart,List.pairwise_singleton _ _,fun a _ b hb => ?_⟩
    cases List.mem_singleton.mp hb
    exact fun _ _ => nofun

/-- The client is closed: all that is pending is given up, and the queue is dropped. -/
theorem giveUp (h : Paced nextId pending queue log) (ps : List (ℕ × PendingRequest))
    (hps : ∀ p ∈ ps, p.1<nextId) :
    Paced nextId [] [] (log++ps.map fun p => .settled p.1 .closed) := by
  have hnone : Paced nextId [] [] log := by
    have hsub : writtenIds log++([] : List Frame).map Frame.id ⊆ writtenIds log++queue.map Frame.id := by
      simp
    refine ⟨nofun,fun id hid => h.known id (hsub hid),?_,fun a ha id hid => ⟨(h.abandoned a ha id hid).1,nofun⟩,
      h.apart⟩
    rw [List.map_nil,List.append_nil]
    exact h.once.of_append_left
  clear h
  induction ps generalizing log with
  | nil => simpa using hnone
  | cons p ps ih =>
    obtain ⟨hp,hps⟩ := List.forall_mem_cons.mp hps
    have hone : Paced nextId [] [] (log++[.settled p.1 .closed]) := hnone.settle nofun fun _ => ⟨hp,nofun⟩
    simpa using ih hps hone

end Paced

/-- The client keeps its frames and promises apart. -/
def Fair (c : ExecClient) : Prop := Paced c.nextId c.pending c.writeQueue c.log

variable {c : ExecClient}

theorem Fair.call (h : Fair c) (method : Method) (timeoutMs : Option ℕ) : Fair (c.call method timeoutMs) := by
  unfold ExecClient.call
  split
  · exact h
  · dsimp only
    unfold send
    split
    · exact Paced.write h _ method
    · exact Paced.enqueue h _ method

theorem Fair.requestSubscribe (h : Fair c) (sinceSeq : ℕ) : Fair (c.requestSubscribe sinceSeq) := by
  have hcall := h.call (.eventsSubscribe sinceSeq) none
  unfold ExecClient.requestSubscribe
  dsimp only
  split
  · exact hcall
  · exact hcall

theorem Fair.subscribe (h : Fair c) (sinceSeq : ℕ) : Fair (c.subscribe sinceSeq) := by
  unfold ExecClient.subscribe
  split
  · exact h
  · have hnew : Fair { c with subscription := some ⟨sinceSeq,sinceSeq,0,0,[],[]⟩ } := h
    exact hnew.requestSubscribe sinceSeq

theorem Fair.unsubscribe (h : Fair c) (handle : ℕ) : Fair (c.unsubscribe handle) := by
  unfold ExecClient.unsubscribe
  split
  · exact h
  · exact h

/-- The timer of a request fires that is not in the queue. -/
theorem Fair.timeout (h : Fair c) {id : ℕ}
    (hq : c.pending.any (fun p => p.1=id)=true → id ∉ c.writeQueue.map Frame.id) : Fair (c.timeout id) := by
  unfold ExecClient.timeout
  split
  · next id' request hf =>
    have hmem := List.mem_of_find?_eq_some hf
    have hid : decide (id'=id)=true := List.find?_some (p := fun p : ℕ × PendingRequest => decide (p.1=id)) hf
    refine Paced.settle h (fun p hp => (List.mem_filter.mp hp).1) fun _ => ⟨?_,hq ?_⟩
    · rw [← of_decide_eq_true hid]
      exact Paced.pending h _ hmem
    · exact List.any_eq_true.mpr ⟨_,hmem,hid⟩
  · exact h

theorem Fair.handleResponse (h : Fair c) {id : ℕ} {outcome : Outcome}
    (hout : (Note.settled id outcome).abandons=none) : Fair (c.handleResponse id outcome) := by
  unfold ExecClient.handleResponse
  split
  · exact Paced.settle h (fun p hp => (List.mem_filter.mp hp).1) fun hid => by rw [hout] at hid; cases hid
  · exact h

theorem Fair.retry (h : Fair c) : Fair c.retry := by
  unfold ExecClient.retry ExecClient.connect
  split
  · split
    · exact h
    · exact h
  · exact h

theorem Fair.onClose (h : Fair c) : Fair c.onClose := by
  unfold ExecClient.onClose
  split
  · exact h
  · exact h

/-- The queue goes out. -/
theorem fair_flush {fs : List Frame} (hq : c.writeQueue=[]) (h : Paced c.nextId c.pending fs c.log) :
    Fair (fs.foldl ExecClient.write c) := by
  induction fs generalizing c with
  | nil =>
    unfold Fair
    rw [List.foldl_nil,hq]
    exact h
  | cons f fs ih => exact ih (c := c.write f) hq h.dequeue

theorem Fair.onConnect (h : Fair c) : Fair c.onConnect := by
  unfold ExecClient.onConnect
  split
  · next buffered hs =>
    have hflush := fair_flush (c := { c with socket := some (.ready buffered), writeQueue := [] }) rfl h
    dsimp only
    split
    · exact hflush.requestSubscribe _
    · exact hflush
  · exact h

/-- When the timer of a request fires, its frame is not in the queue. -/
def Prompt (w : World) : Incident → Prop
  | .timeout id => w.client.pending.any (fun p => p.1=id)=true → id ∉ w.client.writeQueue.map Frame.id
  | _ => True

instance (w : World) (i : Incident) : Decidable (Prompt w i) := by
  unfold Prompt
  cases i <;> infer_instance

theorem fair_step {w : World} (h : Fair w.client) {i : Incident} (hi : Prompt w i) :
    Fair (w.step i).client := by
  cases i with
  | call method timeoutMs => exact h.call method timeoutMs
  | subscribe sinceSeq => exact h.subscribe sinceSeq
  | unsubscribe handle => exact h.unsubscribe handle
  | close => exact Paced.giveUp h _ h.pending
  | timeout id => exact h.timeout hi
  | retry => exact h.retry
  | connect => exact h.onConnect
  | shut => exact h
  | closed => exact h.onClose
  | respond id ok =>
    change Fair (if _ then _ else _ : World).client
    split
    · cases ok with
      | true => exact h.handleResponse rfl
      | false => exact h.handleResponse rfl
    · exact h
  | serve position =>
    change Fair (w.serve position).client
    unfold World.serve
    split
    · exact h
    · exact h
  | notify replay event =>
    change Fair (w.notify replay event).client
    unfold World.notify
    split
    · split
      · exact h
      · exact h
    · exact h

theorem fair_start : Fair {} := ⟨nofun,nofun,List.nodup_nil,nofun,.nil⟩

/-- While no timer fires of a request whose frame still waits in the queue, no frame is written once its
caller was told of a time-out or of the close, and each frame is written once at most, in every run of the
client. -/
theorem no_late_frames (is : List Incident) (h : Throughout World.step Prompt {} is) :
    (run World.step {} is).client.log.Pairwise Apart ∧
      (writtenIds (run World.step {} is).client.log).Nodup := by
  have hfair : Fair (run World.step {} is).client :=
    run_invariant (I := fun w : World => Fair w.client) (fun w i hw hi => fair_step hw hi) fair_start h
  exact ⟨hfair.apart,hfair.once.of_append_left⟩

/-! A request that times out while there is no socket. -/

/-- The connection fails, a proposal waits until its time is over, and the next connection comes. -/
def lateProposal : List Incident :=
  [.closed,.call (.other "exec.intent.propose" .null) none,.timeout 1,.retry,.connect]

theorem late_proposal_written :
    ¬∀ (is : List Incident), (run World.step {} is).client.log.Pairwise Apart ∧
      (writtenIds (run World.step {} is).client.log).Nodup := by
  intro h
  have hlate : ¬(run World.step {} lateProposal).client.log.Pairwise Apart := by decide
  exact hlate (h lateProposal).1

/-- The proposal is written, and its time is over; a second one waits when the client is closed. -/
def promptProposals : List Incident :=
  [.connect,.call (.other "exec.intent.propose" .null) none,.timeout 1,.closed,
    .call (.other "exec.intent.propose" .null) none,.close,.retry,.connect]

theorem prompt_proposals_written :
    ((run World.step {} promptProposals).client.log.Pairwise Apart ∧
      (writtenIds (run World.step {} promptProposals).client.log).Nodup) ∧
      (run World.step {} promptProposals).client.log.map Note.abandons=[none,some 1,some 2] := by
  have hprompt : Throughout World.step Prompt {} promptProposals := by decide
  exact ⟨no_late_frames promptProposals hprompt,by decide⟩

end TradeGate.ExecClient
