import TradeGate.Coop.Guarantee
import TradeGate.Custody.Requests
import TradeGate.Patrol.Unprotected

/-! Every operation keeps an ended thread ended, as long as no other operation ends the thread
while this one still holds a copy of it that it may store. -/
namespace TradeGate
open Coop Contract

namespace Runtime

/-- The stored thread is closed or canceled. -/
def endedAt (s : Runtime) (id : String) : Prop := ∃ t ∈ s.thread id, t.ended

instance (s : Runtime) (id : String) : Decidable (s.endedAt id) :=
  inferInstanceAs (Decidable (∃ t ∈ s.thread id, t.ended))

theorem endedAt_saveThread (s : Runtime) (t : StrategyThread) (id : String) :
    (s.saveThread t).endedAt id ↔ if t.id=id then t.ended else s.endedAt id := by
  unfold endedAt
  rw [thread_saveThread]
  split <;> simp

theorem not_ended_of_open {t : StrategyThread} (ht : t.isOpen) : ¬t.ended := by
  rintro he
  rcases ht with ht|ht <;> rcases he with he|he <;> rw [ht] at he <;> cases he

theorem endedAt_of_thread {s : Runtime} {id : String} {t : StrategyThread} (h : s.thread id=some t) :
    s.endedAt id ↔ t.ended := by
  unfold endedAt
  rw [h]
  simp

theorem endedAt_congr {s s' : Runtime} (h : s'.threads=s.threads) (id : String) :
    s'.endedAt id ↔ s.endedAt id := by
  unfold endedAt thread
  rw [h]

end Runtime

theorem Quiet.endedAt {s s' : Runtime} {id : String} (h : Quiet id s s') :
    s'.endedAt id ↔ s.endedAt id := by
  rcases h with h|⟨t,ht,ids,h⟩
  · unfold Runtime.endedAt
    rw [h]
  · rw [Runtime.endedAt_of_thread h,Runtime.endedAt_of_thread ht]
    exact Iff.rfl

/-- What an operation owes about one thread, and relies on: an ended thread stays ended; while the
operation is suspended the thread neither ends nor comes back. -/
def absorbing (ω : Type) (id : String) : Contract Runtime ω Writer Call Answer where
  may _ _ _ := True
  write s _ _ s' := s.endedAt id → s'.endedAt id
  back s _ _ _ s' _ := s.endedAt id ↔ s'.endedAt id

/-- A copy of the thread may be stored while neither it nor the stored thread has ended. -/
def Unended (id : String) (t : StrategyThread) (s : Runtime) : Prop :=
  t.id=id → ¬t.ended ∧ ¬s.endedAt id

/-- The copies of one thread that may be stored without taking back its end. -/
def unended (ω : Type) (id : String) : Custody ω where
  inv _ _ := True
  held t s _ := Unended id t s
  known t s _ := Unended id t s
  kin _ _ _ := True
  leg _ _ _ _ := True
  again _ _ _ _ := True
  spent _ _ _ := True
  ticket _ _ _ _ := True
  owned _ _ _ := True
  pairs _ _ _ _ := True
  back s _ _ _ s' _ := s.endedAt id ↔ s'.endedAt id
  watch := False

section
variable {ω : Type} {id : String} {s s' : Runtime} {w : ω} {t u v : StrategyThread} {p : Power}
  {l : Writer}

theorem Unended.congr (h : Unended id t s) (he : s'.endedAt id ↔ s.endedAt id) : Unended id t s' :=
  fun hid => ⟨(h hid).1,mt he.mp (h hid).2⟩

/-- An open thread as it is stored. -/
theorem Unended.of_thread (h : s.thread t.id=some t) (ho : t.isOpen) : Unended id t s := by
  rintro rfl
  exact ⟨Runtime.not_ended_of_open ho,
    mt (Runtime.endedAt_of_thread h).mp (Runtime.not_ended_of_open ho)⟩

/-- The stored thread is as good as the copy. -/
theorem Unended.reread (h : Unended id t s) : Unended id ((s.thread t.id).getD t) s := by
  intro hid
  rw [id_getD_thread] at hid
  obtain ⟨h₁,h₂⟩ := h hid
  refine ⟨?_,h₂⟩
  cases hs : s.thread t.id with
  | none => exact h₁
  | some u =>
    rw [hid] at hs
    exact mt (Runtime.endedAt_of_thread hs).mpr h₂

theorem Unended.saved (h : Unended id t s) (hid : u.id=t.id) (hu : u.ended → t.ended) (hv : v.id=t.id)
    (hne : Unended id v s) : Unended id v (s.saveThread u) := by
  intro hvid
  refine ⟨(hne hvid).1,?_⟩
  rw [Runtime.endedAt_saveThread,if_pos (hid.trans (hv.symm.trans hvid))]
  exact mt hu (h (hv.symm.trans hvid)).1

theorem Unended.quiet (h : Unended id t s) (hq : Quiet t.id s s') : Unended id t s' :=
  fun hid => h.congr (by rw [← hid]; exact hq.endedAt) hid

theorem Unended.edited (h : Unended id t s) (hid : u.id=t.id) (hu : u.ended → t.ended) :
    Unended id u (s.saveThread u) := by
  intro huid
  have hn := mt hu (h (hid.symm.trans huid)).1
  refine ⟨hn,?_⟩
  rw [Runtime.endedAt_saveThread,if_pos huid]
  exact hn

/-- A thread is stored open, and its opening intent. -/
theorem Unended.drawn {i : DemoIntent} (ho : t.isOpen) (hd : Custody.Draws s t i s') : Unended id t s' := by
  obtain ⟨ids,hids⟩ := hd.thread
  intro hid
  refine ⟨Runtime.not_ended_of_open ho,?_⟩
  rw [Runtime.endedAt_congr hids,Runtime.endedAt_saveThread,if_pos hid]
  exact Runtime.not_ended_of_open ho

variable [Host]

/-- The opening of a thread leaves it open. -/
theorem Unended.minted {j : DemoIntent} (h : Unended id t s) (hm : Custody.Minting s t u) (hv : v.plan=t.plan)
    (hst : v.progress=t.progress) : Unended id v ((s.saveThread u).saveIntent j) := by
  have hu : u.ended → t.ended := by
    rw [StrategyThread.ended,show u.status=t.status from congrArg Progress.status hm.progress]
    exact fun h => h
  intro hid
  have hvt : v.id=t.id := congrArg Plan.id hv
  have hne : ¬v.ended := by
    rw [StrategyThread.ended,show v.status=t.status from congrArg Progress.status hst]
    exact (h (hvt.symm.trans hid)).1
  exact ⟨hne,(Unended.edited h (congrArg Plan.id hm.plan) hu
    ((congrArg Plan.id hm.plan).trans (hvt.symm.trans hid))).2⟩

theorem unended_laws : (unended ω id).Laws p where
  known_of_held h := h
  kin_of_held _ _ := trivial
  kin_plan _ _ := trivial
  back_inv _ _ := trivial
  back_held _ hb h := Unended.congr h hb.symm
  back_known _ hb h := Unended.congr h hb.symm
  back_kin _ _ _ := trivial
  back_leg _ _ _ _ := trivial
  back_again _ _ _ := trivial
  back_spent _ _ _ := trivial
  back_ticket _ _ _ _ := trivial
  back_owned _ _ _ := trivial
  back_now hw := hw.elim
  listed _ ht _ :=
    .of_thread (Runtime.thread_of_mem (Runtime.mem_openThreads ht).1) (Runtime.mem_openThreads ht).2.1
  reread _ h := Unended.reread h
  takeIntent _ _ := trivial
  takePair _ _ _ _ _ := trivial
  deed_inv _ _ := trivial
  deed_quiet _ _ hq := ⟨fun h => Unended.quiet h hq,fun h => Unended.quiet h hq⟩
  watch_known hw := hw.elim
  watch_spent hw := hw.elim
  deed_edit _ h he hu := Unended.edited h (congrArg Plan.id he.plan) hu
  deed_known _ h he hu hv hk := Unended.saved h (congrArg Plan.id he.plan) hu hv hk
  deed_mints _ _ _ _ _ := trivial
  deed_create {t s _} _ hc _ :=
    .of_thread (Runtime.thread_saveThread_self s t) (.inr (congrArg Progress.status hc.progress))
  deed_kin _ _ _ := trivial
  deed_leg _ _ _ := trivial
  deed_again _ _ _ := trivial
  deed_spent _ _ _ := trivial
  deed_ticket _ _ _ := trivial
  deed_owned _ _ _ := trivial
  patch_owned _ _ _ := trivial
  propose _ _ hc _ hd :=
    ⟨trivial,.drawn (.inl (congrArg Progress.status hc.progress)) hd,trivial,trivial⟩
  mint _ _ h _ _ hm _ _ _ :=
    ⟨trivial,fun _ hv hst => Unended.minted h hm hv hst,trivial,trivial,trivial,trivial⟩

/-- A write from copies that have not ended keeps the thread ended. -/
theorem Stroke.absorbs {K : Custody ω} (hK : ∀ {t s w}, K.held t s w → Unended id t s)
    (h : K.Stroke p l s w s') (he : s.endedAt id) : s'.endedAt id := by
  have hsave : ∀ {t u : StrategyThread}, Unended id t s → u.plan=t.plan → (s.saveThread u).endedAt id :=
    fun {t u} h hplan => by
      rw [Runtime.endedAt_saveThread,show u.id=t.id from congrArg Plan.id hplan]
      split
      · next hid => exact absurd he (h hid).2
      · exact he
  have hnew : ∀ {s : Runtime} {t : StrategyThread}, s.thread t.id=none → s.endedAt id → t.id ≠ id := by
    rintro s t hn ⟨v,hv,-⟩ rfl
    rw [Option.mem_def,hn] at hv
    cases hv
  cases h with
  | deed _ hd =>
    cases hd.threads with
    | same h => exact (Runtime.endedAt_congr h id).mpr he
    | jot t ids ht h => exact (Quiet.of_jot ht h id).endedAt.mpr he
    | edit t u ht hedit h => exact (Runtime.endedAt_congr h id).mpr (hsave (hK ht) hedit.plan)
    | create t hc h =>
      rw [Runtime.endedAt_congr h,Runtime.endedAt_saveThread,if_neg (hnew hc.unborn he)]
      exact he
    | reject t u ht plan hu _ _ _ _ h =>
      rw [Runtime.endedAt_congr h,Runtime.endedAt_saveThread]
      split
      · exact .inr (congrArg Progress.status hu)
      · exact he
  | proposes t _ _ hc h =>
    rw [h,Runtime.endedAt_saveThread,if_neg (hnew hc.unborn he)]
    exact he
  | draws s₀ t i _ _ hc hs hd =>
    obtain ⟨ids,hids⟩ := hd.thread
    rw [Runtime.endedAt_congr hids,Runtime.endedAt_saveThread,← hs]
    split
    · next hid =>
      rw [hs,Runtime.endedAt_saveThread,if_pos hid] at he
      exact he
    · exact he
  | takes t u _ _ _ ht _ hm h => exact h ▸ hsave (hK ht) hm.plan
  | approves s₀ t u i j _ _ _ _ _ _ _ _ _ _ h => exact h ▸ he

/-- Every operation keeps an ended thread ended, as long as nobody else ends the thread while it
is suspended. -/
theorem Operation.program_absorbs (o : Operation) :
    (absorbing ω id).Meets o.program (fun _ _ _ => True) s w := by
  have hadm : o.Admitted (unended ω id) s w :=
    o.admitted_of_unwatched (fun hw => hw) (fun _ => trivial) (fun _ ht ho => .of_thread ht ho) fun _ _ _ _ _ _ _ _ =>
      trivial
  refine (Meets.mono (o.program_keeps unended_laws trivial hadm) fun _ _ _ _ => trivial).weaken
    (fun _ _ _ _ => trivial) (fun _ _ _ _ h => Stroke.absorbs (fun h => h) h) (fun _ _ _ _ _ _ h => h)
    fun _ _ _ => trivial

end
end TradeGate

/-! A thread that is stored as closed or canceled stays so while nothing that is under way when it ends
still stores an open copy of it. -/
namespace TradeGate
open Coop Contract

/-- The part of an operation that finds the thread ended and leaves it so, whatever it is
answered. -/
def sparing (id : String) : Contract Runtime Unit Writer Call Answer where
  may _ _ _ := True
  write s _ _ s' := s.endedAt id → s'.endedAt id
  back s _ _ _ s' _ := s.endedAt id → s'.endedAt id

/-- The suspended operation has no open copy of the thread left to store over its end. -/
def Spares (id : String) : Susp Runtime Writer Call Answer String → Prop
  | .waiting _ k => ∀ r s, s.endedAt id → (sparing id).Meets (k r) (fun _ _ _ => True) s ()
  | .served _ r k => ∀ s, s.endedAt id → (sparing id).Meets (k r) (fun _ _ _ => True) s ()

/-- A step ends the thread only when every operation it passes over spares it. -/
def endsSpared [Host] (id : String) (c : Config Runtime Unit Writer Call Answer String Operation)
    (a : Action Runtime Writer Call Answer String Operation)
    (c' : Config Runtime Unit Writer Call Answer String Operation) : Prop :=
  ¬c.state.endedAt id → c'.state.endedAt id → ∀ t ∈ a.others, Spares id t.susp

/-- Ended threads stay ended; a suspended operation relies on the thread neither ending nor coming
back. -/
def keepsEnded (id : String) : Guarantee Runtime Unit Writer Call Answer where
  may _ _ _ := True
  write s _ _ s' := s.endedAt id → s'.endedAt id
  serve _ _ _ _ _ := True
  waits _ p p' := p.1.endedAt id ↔ p'.1.endedAt id
  holds _ _ p p' := p.1.endedAt id ↔ p'.1.endedAt id

section
variable {id : String} {send : Unit → Call → Unit} {s s' : Runtime} {w w' : Unit}

theorem star_endedAt {p p' : Runtime×Unit}
    (h : Relation.ReflTransGen (fun p p' : Runtime×Unit => p.1.endedAt id ↔ p'.1.endedAt id) p p') :
    p.1.endedAt id ↔ p'.1.endedAt id := by
  induction h with
  | refl => exact Iff.rfl
  | tail _ h ih => exact ih.trans h

theorem keepsEnded_back {q : Call} {r : Answer q}
    (h : ((keepsEnded id).contract send fun _ _ => True).back s w q r s' w') :
    s.endedAt id ↔ s'.endedAt id := by
  obtain ⟨-,⟨s₁,w₁,w₂,h₁,-,h₂⟩,-⟩ := h
  exact (star_endedAt h₁).trans (star_endedAt h₂)

theorem Spares.keeps {x : Susp Runtime Writer Call Answer String} (h : Spares id x)
    (hs : s.endedAt id) : (keepsEnded id).Keeps send (fun _ _ => True) x s w := by
  have hweaken : ∀ {p : RT Unit} {s : Runtime} {w : Unit},
      (sparing id).Meets p (fun _ _ _ => True) s () → (keepsEnded id).Meets send (fun _ _ => True) p s w := fun hp =>
    Meets.weaken hp (fun _ _ _ h => h) (fun _ _ _ _ h => h)
      (fun _ _ _ _ _ _ hb => (keepsEnded_back hb).mp) fun _ _ h => h
  cases x with
  | waiting q k =>
    intro r s₁ w₁ w₂ s₂ w₃ h₁ _ h₂ _
    exact hweaken (h r s₂ ((star_endedAt h₂).mp ((star_endedAt h₁).mp hs)))
  | served q r k => exact fun s₁ w₁ h₁ _ => hweaken (h s₁ ((star_endedAt h₁).mp hs))

end

section
variable [Host] {id : String}

theorem gateway_governs (id : String) :
    Guarantee.Governs (fun _ => keepsEnded id) (fun _ _ => True) gateway (endsSpared id) where
  start o s w _ _ _ _ := by
    have h : (keepsEnded id).Meets gateway.send (fun _ _ => True) o.program s w :=
      Meets.weaken (Meets.mono (C := absorbing _ id) o.program_absorbs fun _ _ _ _ => trivial)
        (fun _ _ _ h => h) (fun _ _ _ _ h => h) (fun _ _ _ _ _ _ hb => keepsEnded_back hb)
        fun _ _ h => h
    exact h
  serve _ _ _ _ _ _ _ _ _ _ _ _ := trivial
  inv _ _ _ _ _ _ _ := trivial
  others c a c' _ hs ha hw t ht := by
    have hkeep : c.state.endedAt id → c'.state.endedAt id := by
      obtain ⟨o,ho,hc,-⟩|⟨-,-,-,he,-⟩|⟨-,-,-,ms,hms⟩ := hs.kind
      · exact fun he => (hc.keeps (fun s : Runtime => s.endedAt id) (hw.writes o ho) he).1
      · rw [he]
        exact fun he => he
      · rw [hms]
        exact fun he => he
    by_cases he : c.state.endedAt id
    · exact .inl (by cases t.susp <;> exact iff_of_true he (hkeep he))
    · by_cases he' : c'.state.endedAt id
      · exact .inr ((ha he he' t ht).keeps he')
      · exact .inl (by cases t.susp <;> exact iff_of_false he he')

end

end TradeGate
