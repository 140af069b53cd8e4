import TradeGate.Custody.Requests
import TradeGate.Lifecycle.Terminal

/-! Threads whose entry is on its way.  A copy that may be stored tells whether the entry was sent,
and a thread in flight is ended only by the opening itself and by an emergency stop, as long as the
requests that end threads leave those in flight alone. -/
namespace TradeGate
open Coop Contract

/-- What tells whether the entry of a thread is on its way. -/
def StrategyThread.flight (t : StrategyThread) : ThreadStatus×Option String×Option ℕ :=
  (t.status,t.entryClientOrderId,t.entrySubmittingSince)

section
variable {t u : StrategyThread} {now : ℕ}

theorem StrategyThread.flight_congr (h : u.progress=t.progress) : u.flight=t.flight := by
  simp only [progress,Progress.mk.injEq] at h
  simp only [flight,h]

theorem StrategyThread.inFlight_of_flight (h : u.flight=t.flight) : u.inFlight now ↔ t.inFlight now := by
  simp only [flight,Prod.mk.injEq] at h
  obtain ⟨h₁,h₂,h₃⟩ := h
  unfold inFlight
  rw [h₁,h₂,h₃]

theorem StrategyThread.settled_of_flight (h : u.flight=t.flight) : u.settled now ↔ t.settled now := by
  have hi : u.inFlight now ↔ t.inFlight now := inFlight_of_flight h
  simp only [flight,Prod.mk.injEq] at h
  obtain ⟨h₁,h₂,-⟩ := h
  unfold settled
  rw [h₁,h₂,hi]

theorem StrategyThread.unsent_of_flight (h : u.flight=t.flight) : u.unsent ↔ t.unsent := by
  simp only [flight,Prod.mk.injEq] at h
  obtain ⟨h₁,h₂,-⟩ := h
  unfold unsent
  rw [h₁,h₂]

theorem StrategyThread.settled.not_unsent (h : t.settled now) : ¬t.unsent := fun ⟨hp,hc⟩ => by
  have := (h hp).1
  rw [hc] at this
  cases this

/-- If the entry of a thread was sent, another record of it is as far in its entry, or settled. -/
def StrategyThread.Ahead (t u : StrategyThread) (now : ℕ) : Prop :=
  t.unsent ∨ u.flight=t.flight ∨ u.settled now

theorem StrategyThread.Ahead.refl (t : StrategyThread) (now : ℕ) : t.Ahead t now := .inr (.inl rfl)

theorem StrategyThread.Ahead.trans {v : StrategyThread} {now' : ℕ} (h : t.Ahead u now)
    (h' : u.Ahead v now') (hn : now ≤ now') : t.Ahead v now' := by
  rcases h with hf|hf|hf
  · exact .inl hf
  · rcases h' with hf'|hf'|hf'
    · exact .inl ((unsent_of_flight hf).mp hf')
    · exact .inr (.inl (hf'.trans hf))
    · exact .inr (.inr hf')
  · rcases h' with hf'|hf'|hf'
    · exact absurd hf' hf.not_unsent
    · exact .inr (.inr ((settled_of_flight hf').mpr (settled_of_le hf hn)))
    · exact .inr (.inr hf')

theorem StrategyThread.Ahead.settled (h : t.Ahead u now) (ht : t.settled now) : u.settled now := by
  rcases h with hf|hf|hf
  · exact absurd hf ht.not_unsent
  · exact (settled_of_flight hf).mpr ht
  · exact hf

theorem StrategyThread.Ahead.sent (h : t.Ahead u now) (ht : ¬t.unsent) : ¬u.unsent := by
  rcases h with hf|hf|hf
  · exact absurd hf ht
  · exact mt (unsent_of_flight hf).mp ht
  · exact hf.not_unsent

end

namespace Runtime

/-- The entry of the stored thread is on its way. -/
def inFlightAt (s : Runtime) (id : String) : Prop := ∃ u ∈ s.thread id, u.inFlight s.now

instance (s : Runtime) (id : String) : Decidable (s.inFlightAt id) :=
  inferInstanceAs (Decidable (∃ u ∈ s.thread id, u.inFlight s.now))

/-- No stored thread waits for its entry. -/
def allSettled (s : Runtime) : Prop := ∀ u ∈ s.threads.rows, u.settled s.now

instance (s : Runtime) : Decidable s.allSettled :=
  inferInstanceAs (Decidable (∀ u ∈ s.threads.rows, u.settled s.now))

/-- No entry for the symbol is on its way. -/
def clearOf (s : Runtime) (symbol : String) : Prop :=
  ∀ u ∈ s.threads.rows, u.symbol=symbol → ¬u.inFlight s.now

instance (s : Runtime) (symbol : String) : Decidable (s.clearOf symbol) :=
  inferInstanceAs (Decidable (∀ u ∈ s.threads.rows, u.symbol=symbol → ¬u.inFlight s.now))

theorem forall_rows {s : Runtime} {P : StrategyThread → Prop} :
    (∀ u ∈ s.threads.rows, P u) ↔ ∀ id, ∀ u ∈ s.thread id, P u :=
  ⟨fun h _ u hu => h u (Keyed.Table.mem_of_lookup hu),fun h u hu => h u.id u (thread_of_mem hu)⟩

end Runtime

/-- Time does not go back, and stored threads keep their symbols and do not fall back behind their
entries. -/
structure Advances (s s' : Runtime) : Prop where
  now : s.now ≤ s'.now
  thread : ∀ id, ∀ x ∈ s.thread id, ∃ x' ∈ s'.thread id, x'.symbol=x.symbol ∧ x.Ahead x' s'.now

/-- The copy is of a stored thread that is ahead of it. -/
def Abreast (t : StrategyThread) (s : Runtime) : Prop :=
  ∃ x ∈ s.thread t.id, x.symbol=t.symbol ∧ t.Ahead x s.now

/-- The copies that may be stored without losing track of an entry.  A pass during an emergency stop
needs all threads settled, and a manual close that no entry of its symbol is on its way. -/
def watched (ω : Type) (pass : Prop) (shut : Option String) : Custody ω where
  inv s _ := (pass → s.halted=true → s.allSettled) ∧ ∀ symbol ∈ shut, s.clearOf symbol
  held t s _ := Abreast t s ∧ (pass → s.halted=true → t.settled s.now)
  known t s _ := Abreast t s ∧ (pass → s.halted=true → t.settled s.now)
  kin _ _ _ := True
  leg _ _ _ _ := True
  again _ _ _ _ := True
  spent id s _ := ∃ u ∈ s.thread id, ¬u.unsent
  ticket _ _ _ _ := True
  owned _ _ _ := True
  pairs _ _ _ _ := True
  back s _ _ _ s' _ := Advances s s' ∧
    (pass → s'.halted=true → s.halted=true ∧ (s.allSettled → s'.allSettled)) ∧
      ∀ symbol ∈ shut, s.clearOf symbol → s'.clearOf symbol
  watch := True

section
variable {ω : Type} {pass : Prop} {shut : Option String} {s s' : Runtime} {w : ω}
  {t u v : StrategyThread} {p : Power} {l : Writer}

theorem Advances.refl (s : Runtime) : Advances s s := ⟨le_rfl,fun _ x hx => ⟨x,hx,rfl,.refl x _⟩⟩

theorem Advances.trans {s'' : Runtime} (h : Advances s s') (h' : Advances s' s'') : Advances s s'' := by
  refine ⟨h.now.trans h'.now,fun id x hx => ?_⟩
  obtain ⟨x',hx',hs,ha⟩ := h.thread id x hx
  obtain ⟨x'',hx'',hs',ha'⟩ := h'.thread id x' hx'
  exact ⟨x'',hx'',hs'.trans hs,ha.trans ha' h'.now⟩

theorem Advances.later (s : Runtime) (ms : ℕ) : Advances s { s with now := s.now+ms } :=
  ⟨Nat.le_add_right _ _,fun _ x hx => ⟨x,hx,rfl,.refl x _⟩⟩

theorem Abreast.advances (h : Abreast t s) (ha : Advances s s') : Abreast t s' := by
  obtain ⟨x,hx,hs,hf⟩ := h
  obtain ⟨x',hx',hs',hf'⟩ := ha.thread t.id x hx
  exact ⟨x',hx',hs'.trans hs,hf.trans hf' ha.now⟩

theorem Abreast.stored (h : s.thread t.id=some t) : Abreast t s := ⟨t,h,rfl,.refl t _⟩

namespace Custody

/-- An edit keeps the thread as far in its entry as it is, or settles it. -/
theorem Edit.ahead {K : Custody ω} (h : K.Edit l s w t u) : t.Ahead u s.now := by
  cases h.change with
  | noted h _ => exact .inr (.inl (StrategyThread.flight_congr h))
  | resized h _ _ =>
    right; left
    exact StrategyThread.flight_congr (u := u) (t := { t with qty := u.qty }) h
  | filled h _ _ =>
    refine .inr (.inr (StrategyThread.settled_of_status ?_))
    rw [show u.status=.inPosition from congrArg Progress.status h]
    nofun
  | submitted h _ _ =>
    by_cases ht : t.unsent
    · exact .inl ht
    · have hs : u.status=t.status := congrArg Progress.status h
      have hc : u.entryClientOrderId=t.entryClientOrderId := congrArg Progress.entryClientOrderId h
      have hn : u.entrySubmittingSince=none := congrArg Progress.entrySubmittingSince h
      refine .inr (.inr fun hp => ⟨?_,fun ⟨_,_,since,hsince,_⟩ => ?_⟩)
      · rw [hc]
        exact Option.isSome_iff_ne_none.mpr fun hnone => ht ⟨hs ▸ hp,hnone⟩
      · rw [hn] at hsince
        cases hsince
  | ended h he _ _ _ =>
    refine .inr (.inr (StrategyThread.settled_of_status ?_))
    rcases he with he|he <;> rw [he] <;> nofun

end Custody

/-- A stored thread is not behind what a firm copy of it becomes. -/
theorem Abreast.ahead (h : Abreast t s) (he : (watched ω pass shut).Edit l s w t u) {x : StrategyThread}
    (hx : s.thread t.id=some x) : x.symbol=u.symbol ∧ x.Ahead u s.now := by
  obtain ⟨y,hy,hs,ha⟩ := h
  rw [Option.mem_def,hx] at hy
  cases hy
  refine ⟨hs.trans (congrArg Plan.symbol he.plan).symm,?_⟩
  rcases he.firm trivial with hf|hf
  · exact .inr (.inr (he.ahead.settled hf))
  · exact (show x.Ahead t s.now from .inr (.inl (StrategyThread.flight_congr (hf x hx)).symm)).trans
      he.ahead le_rfl

/-- Storing an edited copy does not take a thread back. -/
theorem Abreast.saved (h : Abreast t s) (he : (watched ω pass shut).Edit l s w t u) :
    Advances s (s.saveThread u) := by
  have hid : u.id=t.id := congrArg Plan.id he.plan
  refine ⟨le_rfl,fun id x hx => ?_⟩
  rw [Runtime.thread_saveThread]
  split
  · next hu =>
    rw [← hu,hid] at hx
    obtain ⟨hs,ha⟩ := h.ahead he hx
    exact ⟨u,rfl,hs.symm,ha⟩
  · exact ⟨x,hx,rfl,.refl x _⟩

theorem Advances.congr {s₁ : Runtime} (h : Advances s s₁) (ht : s'.threads=s₁.threads)
    (hn : s'.now=s₁.now) : Advances s s' := by
  refine ⟨hn ▸ h.now,fun id x hx => ?_⟩
  rw [thread_congr ht,hn]
  exact h.thread id x hx

/-- Storing a new thread leaves the others alone. -/
theorem Advances.unborn (h : s.thread t.id=none) : Advances s (s.saveThread t) := by
  refine ⟨le_rfl,fun id x hx => ?_⟩
  rw [Runtime.thread_saveThread,if_neg]
  · exact ⟨x,hx,rfl,.refl x _⟩
  · rintro rfl
    rw [Option.mem_def,h] at hx
    cases hx

theorem Quiet.advances (hq : ∀ id, Quiet id s s') (hn : s'.now=s.now) : Advances s s' := by
  refine ⟨hn.ge,fun id x hx => ?_⟩
  rcases hq id with h|⟨y,hy,ids,h⟩
  · exact ⟨x,h ▸ hx,rfl,.refl x _⟩
  · rw [Option.mem_def,hx] at hy
    cases hy
    exact ⟨_,h,rfl,.inr (.inl rfl)⟩

namespace Custody

theorem Edit.inFlight {K : Custody ω} (h : K.Edit l s w t u) {now : ℕ} (hu : u.inFlight now) :
    t.inFlight now := by
  have hstatus : ∀ {x : ThreadStatus}, u.status=x → x=.pendingEntry := fun hx => hx ▸ hu.1
  cases h.change with
  | noted h _ => exact (StrategyThread.inFlight_congr h now).mp hu
  | resized h _ _ =>
    exact (StrategyThread.inFlight_congr (u := u) (t := { t with qty := u.qty }) h now).mp hu
  | filled h _ _ => cases hstatus (congrArg Progress.status h)
  | submitted h _ _ =>
    obtain ⟨-,-,since,hsince,-⟩ := hu
    rw [show u.entrySubmittingSince=none from congrArg Progress.entrySubmittingSince h] at hsince
    cases hsince
  | ended h he _ _ _ => rcases he with he|he <;> cases hstatus he

/-- A thread in flight after an edit is stored as in flight before. -/
theorem Edit.inFlight_stored (he : (watched ω pass shut).Edit l s w t u) (h : Abreast t s)
    (hu : u.inFlight s.now) : ∃ x ∈ s.thread t.id, x.symbol=u.symbol ∧ x.inFlight s.now := by
  have ht := he.inFlight hu
  obtain ⟨x,hx,hs,ha⟩ := h
  refine ⟨x,hx,hs.trans (congrArg Plan.symbol he.plan).symm,?_⟩
  rcases he.firm trivial with hf|hf
  · exact absurd ht hf.not_inFlight
  · exact (StrategyThread.inFlight_congr (hf x hx) s.now).mpr ht

theorem Deed.advances (hd : (watched ω pass shut).Deed p l s w s') : Advances s s' := by
  cases hd.threads with
  | same h => exact (Advances.refl s).congr h hd.now
  | jot t ids ht h => exact Quiet.advances (.of_jot ht h) hd.now
  | edit t u ht he h => exact (ht.1.saved he).congr h hd.now
  | create t hc h => exact (Advances.unborn hc.unborn).congr h hd.now
  | reject t u ht plan hu _ _ _ _ h =>
    refine Advances.congr (?_ : Advances s (s.saveThread u)) h hd.now
    refine ⟨le_rfl,fun id x hx => ?_⟩
    rw [Runtime.thread_saveThread]
    split
    · next hid =>
      rw [show u.id=t.id from congrArg Plan.id plan] at hid
      rw [Option.mem_def,← hid,ht] at hx
      cases hx
      refine ⟨u,rfl,congrArg Plan.symbol plan,.inr (.inr (StrategyThread.settled_of_status ?_))⟩
      rw [show u.status=.canceled from congrArg Progress.status hu]
      nofun
    · exact ⟨x,hx,rfl,.refl x _⟩

theorem Adopted.settled (hc : Adopted s t) (now : ℕ) : t.settled now := by
  refine StrategyThread.settled_of_status ?_
  rw [show t.status=.inPosition from congrArg Progress.status hc.progress]
  nofun

/-- Where a stored thread comes from: it was stored so, is settled, or is an edited copy. -/
theorem Deed.origin (hd : (watched ω pass shut).Deed p l s w s') {id : String}
    {x : StrategyThread} (hx : s'.thread id=some x) :
    (∃ y ∈ s.thread id, x.symbol=y.symbol ∧ x.flight=y.flight) ∨ x.settled s.now ∨
      ∃ t, (watched ω pass shut).held t s w ∧ (watched ω pass shut).Edit l s w t x := by
  have hsave : ∀ {u : StrategyThread}, s'.threads=(s.saveThread u).threads →
      s.thread id=some x ∨ x=u := fun {u} h => by
    rw [thread_congr h,Runtime.thread_saveThread] at hx
    split at hx
    · exact .inr (Option.some.inj hx).symm
    · exact .inl hx
  cases hd.threads with
  | same h => exact .inl ⟨x,by rw [Option.mem_def,← thread_congr h]; exact hx,rfl,rfl⟩
  | jot t ids ht h =>
    rcases Quiet.of_jot ht h id with hq|⟨y,hy,ids',hq⟩
    · exact .inl ⟨x,hq ▸ hx,rfl,rfl⟩
    · rw [hq] at hx
      cases hx
      exact .inl ⟨y,hy,rfl,rfl⟩
  | edit t u ht he h =>
    rcases hsave h with h|rfl
    · exact .inl ⟨x,h,rfl,rfl⟩
    · exact .inr (.inr ⟨t,ht,he⟩)
  | create t hc h =>
    rcases hsave h with h|rfl
    · exact .inl ⟨x,h,rfl,rfl⟩
    · exact .inr (.inl (hc.settled _))
  | reject t u _ _ hu _ _ _ _ h =>
    rcases hsave h with h|rfl
    · exact .inl ⟨x,h,rfl,rfl⟩
    · refine .inr (.inl (StrategyThread.settled_of_status ?_))
      rw [show x.status=.canceled from congrArg Progress.status hu]
      nofun

theorem Deed.inv (hpow : pass ∨ shut.isSome → p=.ordinary) (h : (watched ω pass shut).inv s w)
    (hd : (watched ω pass shut).Deed p l s w s') : (watched ω pass shut).inv s' w := by
  refine ⟨fun hp hh => ?_,fun symbol hs => ?_⟩
  · have hord := hpow (.inl hp)
    rw [hd.halted.resolve_right (by rw [hord]; nofun)] at hh
    rw [Runtime.allSettled,Runtime.forall_rows,hd.now]
    intro id x hx
    rcases hd.origin hx with ⟨y,hy,-,hf⟩|hx|⟨t,ht,he⟩
    · exact (StrategyThread.settled_of_flight hf).mpr (Runtime.forall_rows.mp (h.1 hp hh) id y hy)
    · exact hx
    · exact he.ahead.settled (ht.2 hp hh)
  · have hclear := Runtime.forall_rows.mp (h.2 symbol hs)
    rw [Runtime.clearOf,Runtime.forall_rows,hd.now]
    intro id x hx hsym hf
    rcases hd.origin hx with ⟨y,hy,hs',hfl⟩|hx|⟨t,ht,he⟩
    · exact hclear id y hy (hs'.symm.trans hsym) ((StrategyThread.inFlight_of_flight hfl).mp hf)
    · exact hx.not_inFlight hf
    · obtain ⟨y,hy,hs',hf'⟩ := he.inFlight_stored ht.1 hf
      exact hclear _ y hy (hs'.trans hsym) hf'

end Custody

variable [Host]

theorem watched_laws (hpow : pass ∨ shut.isSome → p=.ordinary) : (watched ω pass shut).Laws p where
  known_of_held h := h
  kin_of_held _ _ := trivial
  kin_plan _ _ := trivial
  back_inv h hb := ⟨fun hp hh => (hb.2.1 hp hh).2 (h.1 hp (hb.2.1 hp hh).1),fun symbol hs => hb.2.2 symbol hs (h.2 symbol hs)⟩
  back_held _ hb h := ⟨h.1.advances hb.1,fun hp hh =>
    StrategyThread.settled_of_le (h.2 hp (hb.2.1 hp hh).1) hb.1.now⟩
  back_known _ hb h := ⟨h.1.advances hb.1,fun hp hh =>
    StrategyThread.settled_of_le (h.2 hp (hb.2.1 hp hh).1) hb.1.now⟩
  back_kin _ _ _ := trivial
  back_leg _ _ _ _ := trivial
  back_again _ _ _ := trivial
  back_spent _ hb h := by
    obtain ⟨u,hu,hn⟩ := h
    obtain ⟨u',hu',-,ha⟩ := hb.1.thread _ u hu
    exact ⟨u',hu',ha.sent hn⟩
  back_ticket _ _ _ _ := trivial
  back_owned _ _ _ := trivial
  back_now _ _ hb := hb.1.now
  listed h ht _ :=
    have hm := (Runtime.mem_openThreads ht).1
    ⟨.stored (Runtime.thread_of_mem hm),fun hp hh => h.1 hp hh _ hm⟩
  reread {t s w} h hk := by
    obtain ⟨x,hx,-,-⟩ := hk.1
    rw [hx,Option.getD_some]
    have hx' : s.thread x.id=some x := by
      rw [Runtime.id_of_thread hx]
      exact hx
    exact ⟨.stored hx',fun hp hh => Runtime.forall_rows.mp (h.1 hp hh) _ x hx⟩
  takeIntent _ _ := trivial
  takePair _ _ _ _ _ := trivial
  deed_inv h hd := hd.inv hpow h
  deed_quiet {l t s w s'} _ hd hq := by
    have hone : ∀ h : Abreast t s, Abreast t s' := by
      rintro ⟨x,hx,hs,ha⟩
      rcases hq with hq|⟨y,hy,ids,hq⟩
      · exact ⟨x,hq ▸ hx,hs,by rw [hd.now]; exact ha⟩
      · rw [Option.mem_def,hx] at hy
        cases hy
        exact ⟨_,hq,hs,by rw [hd.now]; exact ha.trans (.inr (.inl rfl)) le_rfl⟩
    have hhalt : pass → s'.halted=true → s.halted=true := fun hp hh => by
      rwa [← hd.halted.resolve_right (by rw [hpow (.inl hp)]; nofun)]
    have h : Abreast t s ∧ (pass → s.halted=true → t.settled s.now) →
        Abreast t s' ∧ (pass → s'.halted=true → t.settled s'.now) := fun h =>
      ⟨hone h.1,fun hp hh => by rw [hd.now]; exact h.2 hp (hhalt hp hh)⟩
    exact ⟨h,h⟩
  watch_known _ _ hk ht hu := by
    obtain ⟨x,hx,-,ha⟩ := hk.1
    rw [Option.mem_def,hu] at hx
    cases hx
    exact ha.settled ht
  watch_spent _ _ hs := hs
  deed_edit _ h he _ := ⟨.stored (Runtime.thread_saveThread_self _ _),fun hp hh =>
    he.ahead.settled (h.2 hp hh)⟩
  deed_known _ h he _ _ hk := ⟨hk.1.advances (h.1.saved he),fun hp hh => hk.2 hp hh⟩
  deed_mints _ _ _ _ _ := trivial
  deed_create _ hc _ := ⟨.stored (Runtime.thread_saveThread_self _ _),fun _ _ => hc.settled _⟩
  deed_kin _ _ _ := trivial
  deed_leg _ _ _ := trivial
  deed_again _ _ _ := trivial
  deed_spent _ hd h := by
    obtain ⟨u,hu,hn⟩ := h
    obtain ⟨u',hu',-,ha⟩ := hd.advances.thread _ u hu
    exact ⟨u',hu',ha.sent hn⟩
  deed_ticket _ _ _ := trivial
  deed_owned _ _ _ := trivial
  patch_owned _ _ _ := trivial
  propose {t i s w s'} hp _ hc _ hd := by
    have hno : ¬(pass ∨ shut.isSome) := fun hx => by rw [hpow hx] at hp; cases hp
    obtain ⟨ids,hids⟩ := hd.thread
    refine ⟨⟨fun hx => absurd (.inl hx) hno,fun _ hs => absurd (.inr (Option.isSome_of_mem hs)) hno⟩,
      ⟨⟨{ t with intentIds := ids },?_,rfl,.inr (.inl rfl)⟩,fun hx => absurd (.inl hx) hno⟩,trivial,trivial⟩
    rw [Option.mem_def,thread_congr hids]
    exact Runtime.thread_saveThread_self _ { t with intentIds := ids }
  mint {t u i j s w} hp _ h _ _ hm _ _ _ := by
    have hno : ¬(pass ∨ shut.isSome) := fun hx => by rw [hpow hx] at hp; cases hp
    have hid : u.id=t.id := congrArg Plan.id hm.plan
    have hu : ((s.saveThread u).saveIntent j).thread t.id=some u := by
      rw [← hid]
      exact Runtime.thread_saveThread_self s u
    refine ⟨⟨fun hx => absurd (.inl hx) hno,fun _ hs => absurd (.inr (Option.isSome_of_mem hs)) hno⟩,
      fun v hv hprog => ⟨⟨u,?_,?_,.inl ?_⟩,fun hx => absurd (.inl hx) hno⟩,trivial,trivial,⟨u,hu,?_⟩,trivial⟩
    · rw [show v.id=t.id from congrArg Plan.id hv]
      exact hu
    · exact (congrArg Plan.symbol hm.plan).trans (congrArg Plan.symbol hv).symm
    · exact (StrategyThread.unsent_of_flight (StrategyThread.flight_congr hprog)).mpr hm.unsent
    · rintro ⟨-,hc⟩
      rw [show u.entryClientOrderId=_ from congrArg Progress.entryClientOrderId hm.progress] at hc
      cases hc

omit [Host] in
/-- Storing an edited copy does not end a thread in flight, apart from what openings and stops do. -/
theorem Abreast.spares (h : Abreast t s) (he : (watched ω pass shut).Edit l s w t u)
    (hl : l ≠ .open ∧ l ≠ .propose ∧ l ≠ .halt) {x : StrategyThread} (hx : s.thread t.id=some x)
    (hf : x.inFlight s.now) : ¬u.ended := by
  intro hu
  -- the copy is not settled, for its stored thread would be settled too
  have hns : ¬t.settled s.now := fun hs => by
    obtain ⟨y,hy,-,ha⟩ := h
    rw [Option.mem_def,hx] at hy
    cases hy
    exact (ha.settled hs).not_inFlight hf
  have hnt : t.status=.pendingEntry := by
    by_contra hn
    exact hns (StrategyThread.settled_of_status hn)
  have hstatus : u.status=t.status → False := fun hs => by
    rw [StrategyThread.ended,hs,hnt] at hu
    rcases hu with hu|hu <;> cases hu
  cases he.change with
  | noted h _ => exact hstatus (congrArg Progress.status h)
  | resized h _ _ => exact hstatus (congrArg Progress.status h)
  | filled h _ _ =>
    rw [StrategyThread.ended,show u.status=.inPosition from congrArg Progress.status h] at hu
    rcases hu with hu|hu <;> cases hu
  | submitted h _ _ => exact hstatus (congrArg Progress.status h)
  | ended _ _ _ _ sure =>
    rcases sure trivial with rfl|rfl|rfl|hn
    · exact hl.1 rfl
    · exact hl.2.1 rfl
    · exact hl.2.2 rfl
    · rcases he.firm trivial with hs|hs
      · exact hns hs
      · exact hn ((StrategyThread.inFlight_congr (hs x hx) s.now).mp hf)

/-- What a write owes: no thread falls back, and one in flight is ended by openings and stops only. -/
structure Watches (s : Runtime) (l : Writer) (s' : Runtime) : Prop where
  advances : Advances s s'
  spares : l ≠ .open ∧ l ≠ .propose ∧ l ≠ .halt → ∀ id, s.inFlightAt id → ¬s'.endedAt id

omit [Host] in
theorem not_ended_of_inFlight {id : String} {now : ℕ} {x : StrategyThread} (hx : s'.thread id=some x)
    (hf : x.inFlight now) : ¬s'.endedAt id := by
  rw [Runtime.endedAt_of_thread hx]
  rintro (he|he) <;> exact ThreadStatus.noConfusion (he.symm.trans hf.1)

omit [Host] in
theorem Custody.Deed.watches (hd : (watched ω pass shut).Deed p l s w s') : Watches s l s' := by
  refine ⟨hd.advances,fun hl id ⟨x,hx,hf⟩ => ?_⟩
  rw [Option.mem_def] at hx
  cases hd.threads with
  | same h => exact not_ended_of_inFlight (by rw [thread_congr h]; exact hx) hf
  | jot t ids ht h =>
    rw [(Quiet.of_jot ht h id).endedAt]
    exact not_ended_of_inFlight hx hf
  | edit t u ht he h =>
    rw [Runtime.endedAt_congr h,Runtime.endedAt_saveThread]
    split
    · next hid =>
      rw [← hid,show u.id=t.id from congrArg Plan.id he.plan] at hx
      exact ht.1.spares he hl hx hf
    · exact not_ended_of_inFlight hx hf
  | create t hc h =>
    rw [Runtime.endedAt_congr h,Runtime.endedAt_saveThread,if_neg]
    · exact not_ended_of_inFlight hx hf
    · rintro rfl
      rw [hc.unborn] at hx
      cases hx
  | reject t u ht plan _ _ _ _ calm h =>
    rw [Runtime.endedAt_congr h,Runtime.endedAt_saveThread,if_neg]
    · exact not_ended_of_inFlight hx hf
    · rw [show u.id=t.id from congrArg Plan.id plan]
      rintro rfl
      rw [ht] at hx
      cases hx
      exact calm trivial hf

theorem Custody.Stroke.watches (h : (watched ω pass shut).Stroke p l s w s') : Watches s l s' := by
  cases h with
  | deed _ hd => exact hd.watches
  | proposes t _ _ hc h =>
    subst h
    have hadv := Advances.unborn hc.unborn
    refine ⟨hadv,fun _ id ⟨x,hx,hf⟩ => ?_⟩
    rw [Runtime.endedAt_saveThread,if_neg]
    · exact not_ended_of_inFlight hx hf
    · rintro rfl
      rw [Option.mem_def,hc.unborn] at hx
      cases hx
  | draws s₀ t i _ _ _ hs hd =>
    obtain ⟨ids,hids⟩ := hd.thread
    have hq : ∀ id, Quiet id s s' := fun id =>
      .of_jot (by rw [hs]; exact Runtime.thread_saveThread_self s₀ t) (hs ▸ hids) id
    have hn : s'.now=s.now := by rw [hs]; exact hd.now
    refine ⟨Quiet.advances hq hn,fun _ id ⟨x,hx,hf⟩ => ?_⟩
    rw [(hq id).endedAt]
    exact not_ended_of_inFlight hx hf
  | takes t u _ hl _ held fresh hm h =>
    subst h
    refine ⟨⟨le_rfl,fun id x hx => ?_⟩,fun hn => absurd hl hn.1⟩
    rw [Runtime.thread_saveThread]
    split
    · next hid =>
      rw [show u.id=t.id from congrArg Plan.id hm.plan] at hid
      rw [← hid] at hx
      have hxt := fresh x hx
      subst hxt
      exact ⟨u,rfl,congrArg Plan.symbol hm.plan,.inl hm.unsent⟩
    · exact ⟨x,hx,rfl,.refl x _⟩
  | approves s₀ t u i j _ _ _ _ _ _ _ _ _ _ h =>
    subst h
    exact ⟨⟨le_rfl,fun id x hx => ⟨x,hx,rfl,.refl x _⟩⟩,fun _ id ⟨x,hx,hf⟩ => not_ended_of_inFlight hx hf⟩

end
end TradeGate
