import Mathlib.Data.List.Basic
import TradeGate.Machine.Run

/-! Threads over one shared state.  Each access of a thread is atomic and bears a label; between two
accesses the other threads and the environment move. -/
namespace Threads

/-- A thread with state `σ`, access labels `Λ` and errors `ε`. -/
inductive Thread (σ Λ ε α : Type) where
  | done (a : α)
  | fail (e : ε)
  | access (l : Λ) (f : σ → σ) (k : σ → Thread σ Λ ε α)

namespace Thread

variable {σ Λ ε ε' α β γ : Type}

/-- Sequencing; an error of the first part skips the second. -/
def bind : Thread σ Λ ε α → (α → Thread σ Λ ε β) → Thread σ Λ ε β
  | done a, g => g a
  | fail e, _ => fail e
  | access l f k, g => access l f fun s => (k s).bind g

instance : Monad (Thread σ Λ ε) where
  pure := done
  bind := bind

@[simp] theorem pure_eq (a : α) : (pure a : Thread σ Λ ε α)=done a := rfl

@[simp] theorem done_bind (a : α) (g : α → Thread σ Λ ε β) : (done a >>= g)=g a := rfl

@[simp] theorem fail_bind (e : ε) (g : α → Thread σ Λ ε β) : (fail e >>= g)=fail e := rfl

@[simp] theorem access_bind (l : Λ) (f : σ → σ) (k : σ → Thread σ Λ ε α) (g : α → Thread σ Λ ε β) :
    (access l f k >>= g)=access l f fun s => k s >>= g := rfl

/-- One access that reads. -/
def read (l : Λ) (f : σ → α) : Thread σ Λ ε α := access l id fun s => done (f s)

/-- One access that changes the state, or throws and leaves it as it is. -/
def atomic (l : Λ) (f : σ → Except ε (α × σ)) : Thread σ Λ ε α :=
  access l (fun s => match f s with
    | .ok (_,s') => s'
    | .error _ => s) fun s => match f s with
    | .ok (a,_) => done a
    | .error e => fail e

/-- A value or an error, without an access. -/
def lift : Except ε α → Thread σ Λ ε α
  | .ok a => done a
  | .error e => fail e

/-- How the thread ends, as a value. -/
def outcome : Thread σ Λ ε α → Thread σ Λ ε' (Except ε α)
  | done a => done (.ok a)
  | fail e => done (.error e)
  | access l f k => access l f fun s => (k s).outcome

/-- The label of the access that comes next. -/
def next : Thread σ Λ ε α → Option Λ
  | access l _ _ => some l
  | _ => none

end Thread

variable {σ Λ ε O E : Type}

structure Config (σ Λ ε : Type) where
  state : σ
  threads : List (Thread σ Λ ε Unit)

/-- The threads that operations start, and how the environment moves. -/
structure System (σ Λ ε O E : Type) where
  program : O → Thread σ Λ ε Unit
  env : E → σ → σ

inductive Move (O E : Type) where
  | spawn (o : O)
  | go (i : ℕ)
  | env (e : E)
deriving DecidableEq

/-- One access of a thread; a thread that has ended stays as it is. -/
def Config.go (c : Config σ Λ ε) (i : ℕ) : Config σ Λ ε :=
  match c.threads[i]? with
  | some (.access _ f k) => ⟨f c.state,c.threads.set i (k c.state)⟩
  | _ => c

def step (S : System σ Λ ε O E) (c : Config σ Λ ε) : Move O E → Config σ Λ ε
  | .spawn o => ⟨c.state,c.threads++[S.program o]⟩
  | .go i => c.go i
  | .env e => ⟨S.env e c.state,c.threads⟩

/-- The label of the access that a move makes. -/
def Config.label (c : Config σ Λ ε) : Move O E → Option Λ
  | .go i => c.threads[i]?.bind Thread.next
  | _ => none

/-- A move that makes no access leaves the state to the environment. -/
theorem step_of_noLabel {S : System σ Λ ε O E} {c : Config σ Λ ε} {m : Move O E} (h : c.label m=none) :
    (step S c m).state=c.state ∨ ∃ e, m=.env e ∧ (step S c m).state=S.env e c.state := by
  cases m with
  | spawn o => exact .inl rfl
  | env e => exact .inr ⟨e,rfl,rfl⟩
  | go i =>
    refine .inl ?_
    change (c.go i).state=c.state
    unfold Config.go
    split
    · next ht => simp [Config.label,ht,Thread.next] at h
    · rfl

/-- The accesses along a run. -/
def accesses (S : System σ Λ ε O E) : Config σ Λ ε → List (Move O E) → List Λ
  | _, [] => []
  | c, m::ms => (c.label m).toList++accesses S (step S c m) ms

end Threads

/-! Rely and guarantee for threads.  Before each access a thread counts on something that the others
keep; if no move disturbs what the threads it passes over count on, every access is as owed. -/
namespace Threads

variable {σ Λ ε ε' O E α β : Type}

/-- What the thread counts on from where it stands to the access of the label. -/
structure Care (σ Λ : Type) where
  keeps : Λ → σ → σ → Prop
  refl : ∀ l s, keeps l s s
  trans : ∀ l s s' s'', keeps l s s' → keeps l s' s'' → keeps l s s''

/-- To count on nothing. -/
def Care.free : Care σ Λ := ⟨fun _ _ _ => True,fun _ _ => trivial,fun _ _ _ _ _ _ => trivial⟩

/-- What each access owes, an invariant of the state, and how the state goes on. -/
structure Pact (σ Λ : Type) extends Care σ Λ where
  owes : Λ → σ → σ → Prop
  inv : σ → Prop
  goes : σ → σ → Prop
  goes_refl : ∀ s, goes s s
  goes_trans : ∀ s s' s'', goes s s' → goes s' s'' → goes s s''
  onward : ∀ l s s', inv s → owes l s s' → inv s' ∧ goes s s'

/-- A pact without an invariant. -/
def Care.pact (K : Care σ Λ) (owes : Λ → σ → σ → Prop) : Pact σ Λ where
  toCare := K
  owes := owes
  inv _ := True
  goes _ _ := True
  goes_refl _ := trivial
  goes_trans _ _ _ _ _ := trivial
  onward _ _ _ _ _ := ⟨trivial,trivial⟩

namespace Pact

variable (C : Pact σ Λ)

/-- What a thread relies on before the access of the label. -/
def Relies (l : Λ) (s s' : σ) : Prop := C.goes s s' ∧ C.keeps l s s'

/-- Every access of the thread is as owed, and `P` holds where it ends. -/
def Meets : Thread σ Λ ε α → (Except ε α → σ → Prop) → σ → Prop
  | .done a, P, s => P (.ok a) s
  | .fail e, P, s => P (.error e) s
  | .access l f k, P, s => ∀ s', C.inv s' → C.Relies l s s' →
    C.owes l s' (f s') ∧ Meets (k s') P (f s')

variable {C}

theorem Relies.refl (l : Λ) (s : σ) : C.Relies l s s := ⟨C.goes_refl s,C.refl l s⟩

theorem Relies.trans {l : Λ} {s s' s'' : σ} (h : C.Relies l s s') (h' : C.Relies l s' s'') :
    C.Relies l s s'' := ⟨C.goes_trans _ _ _ h.1 h'.1,C.trans _ _ _ _ h.2 h'.2⟩

namespace Meets

variable {P : Except ε α → σ → Prop} {s s' : σ}

@[simp] theorem done {a : α} : C.Meets (.done a : Thread σ Λ ε α) P s ↔ P (.ok a) s := Iff.rfl

@[simp] theorem fail {e : ε} : C.Meets (.fail e : Thread σ Λ ε α) P s ↔ P (.error e) s := Iff.rfl

theorem mono {P' : Except ε α → σ → Prop} {t : Thread σ Λ ε α} (h : C.Meets t P s)
    (hP : ∀ x s, P x s → P' x s) : C.Meets t P' s := by
  induction t generalizing s with
  | done a => exact hP _ _ h
  | fail e => exact hP _ _ h
  | access l f k ih => exact fun s' hi hr => ⟨(h s' hi hr).1,ih s' (h s' hi hr).2⟩

theorem bind {P : Except ε β → σ → Prop} {t : Thread σ Λ ε α} {g : α → Thread σ Λ ε β}
    (h : C.Meets t (fun x s => match x with
      | .ok a => C.Meets (g a) P s
      | .error e => P (.error e) s) s) : C.Meets (t >>= g) P s := by
  induction t generalizing s with
  | done a => exact h
  | fail e => exact h
  | access l f k ih => exact fun s' hi hr => ⟨(h s' hi hr).1,ih s' (h s' hi hr).2⟩

theorem read {l : Λ} {f : σ → α}
    (h : ∀ s', C.inv s' → C.Relies l s s' → C.owes l s' s' ∧ P (.ok (f s')) s') :
    C.Meets (Thread.read l f : Thread σ Λ ε α) P s := h

theorem atomic {l : Λ} {f : σ → Except ε (α × σ)}
    (h : ∀ s', C.inv s' → C.Relies l s s' → match f s' with
      | .ok (a,s'') => C.owes l s' s'' ∧ P (.ok a) s''
      | .error e => C.owes l s' s' ∧ P (.error e) s') :
    C.Meets (Thread.atomic l f : Thread σ Λ ε α) P s := by
  intro s' hi hr
  have h' := h s' hi hr
  cases hf : f s' with
  | error e => simpa [hf] using h'
  | ok x => simpa [hf] using h'

theorem lift {x : Except ε α} (h : P x s) : C.Meets (Thread.lift x : Thread σ Λ ε α) P s := by
  cases x <;> exact h

theorem outcome {P : Except ε' (Except ε α) → σ → Prop} {t : Thread σ Λ ε α}
    (h : C.Meets t (fun x s => P (.ok x) s) s) : C.Meets t.outcome P s := by
  induction t generalizing s with
  | done a => exact h
  | fail e => exact h
  | access l f k ih => exact fun s' hi hr => ⟨(h s' hi hr).1,ih s' (h s' hi hr).2⟩

/-- A thread that nothing disturbs keeps the pact where it stands. -/
theorem rely {t : Thread σ Λ ε α} (h : C.Meets t (fun _ _ => True) s)
    (hr : ∀ l ∈ t.next, C.Relies l s s') : C.Meets t (fun _ _ => True) s' := by
  cases t with
  | done a => trivial
  | fail e => trivial
  | access l f k => exact fun s'' hi hr' => h s'' hi ((hr l rfl).trans hr')

end Meets

/-- The move disturbs none of the threads that it passes over. -/
def Undisturbed (K : Care σ Λ) (S : System σ Λ ε O E) (c : Config σ Λ ε) (m : Move O E) : Prop :=
  ∀ (i : ℕ) (t : Thread σ Λ ε Unit), c.threads[i]?=some t → m ≠ .go i → 
    ∀ l ∈ t.next, K.keeps l c.state (step S c m).state

/-- The move is not one of the thread. -/
def passes (i : ℕ) : Move O E → Bool
  | .go j => j ≠ i
  | _ => true

theorem passes_iff {i : ℕ} {m : Move O E} : passes i m=true ↔ m ≠ .go i := by
  cases m <;> simp [passes]

instance (K : Care σ Λ) [∀ l s s', Decidable (K.keeps l s s')] (S : System σ Λ ε O E)
    (c : Config σ Λ ε) (m : Move O E) : Decidable (Undisturbed K S c m) :=
  decidable_of_iff (∀ i ∈ List.range c.threads.length, passes i m=true →
      ∀ l ∈ (c.threads[i]?.bind Thread.next).toList, K.keeps l c.state (step S c m).state) <| by
    refine ⟨fun h i t ht hm l hl => ?_,fun h i _ hm l hl => ?_⟩
    · refine h i (List.mem_range.mpr (List.getElem?_eq_some_iff.mp ht).1) (passes_iff.mpr hm) l ?_
      rw [ht]
      exact Option.mem_toList.mpr hl
    · obtain ⟨t,ht,hn⟩ := Option.bind_eq_some_iff.mp (Option.mem_toList.mp hl)
      exact h i t ht (passes_iff.mp hm) l hn

/-- The invariant holds, and every thread of the configuration keeps the pact. -/
structure Holds (C : Pact σ Λ) (c : Config σ Λ ε) : Prop where
  inv : C.inv c.state
  threads : ∀ (i : ℕ) (t : Thread σ Λ ε Unit), c.threads[i]?=some t →
    C.Meets t (fun _ _ => True) c.state

/-- Nothing is running yet. -/
theorem Holds.start {s : σ} (h : C.inv s) : Holds C (⟨s,[]⟩ : Config σ Λ ε) := ⟨h,nofun⟩

variable {S : System σ Λ ε O E} {c : Config σ Λ ε} {m : Move O E}

theorem Holds.owes (h : Holds C c) (l : Λ) (hl : l ∈ c.label m) :
    C.owes l c.state (step S c m).state := by
  cases m with
  | spawn o => cases hl
  | env e => cases hl
  | go i =>
    obtain ⟨t,ht,hn⟩ := Option.bind_eq_some_iff.mp hl
    cases t with
    | done a => cases hn
    | fail e => cases hn
    | access l f k =>
      cases hn
      have hm := (h.threads i _ ht c.state h.inv (.refl _ _)).1
      simpa [step,Config.go,ht] using hm

/-- The environment keeps the invariant and goes on too. -/
def Calm (C : Pact σ Λ) (S : System σ Λ ε O E) : Prop :=
  ∀ e s, C.inv s → C.inv (S.env e s) ∧ C.goes s (S.env e s)

theorem Holds.goes (henv : Calm C S) (h : Holds C c) :
    C.inv (step S c m).state ∧ C.goes c.state (step S c m).state := by
  cases hl : c.label m with
  | some l => exact C.onward _ _ _ h.inv (h.owes l hl)
  | none =>
    rcases step_of_noLabel (S := S) hl with hs|⟨e,-,hs⟩
    · rw [hs]
      exact ⟨h.inv,C.goes_refl _⟩
    · rw [hs]
      exact henv e _ h.inv

theorem Holds.step (henv : Calm C S) (hprog : ∀ o s, C.Meets (S.program o) (fun _ _ => True) s)
    (h : Holds C c) (hu : Undisturbed C.toCare S c m) : Holds C (step S c m) := by
  have hold : ∀ (i : ℕ) (t : Thread σ Λ ε Unit), c.threads[i]?=some t → m ≠ .go i →
      C.Meets t (fun _ _ => True) (Threads.step S c m).state := fun i t ht hm =>
    (h.threads i t ht).rely fun l hl => ⟨(h.goes henv).2,hu i t ht hm l hl⟩
  refine ⟨(h.goes henv).1,fun i t ht => ?_⟩
  cases m with
  | env e => exact hold i t ht nofun
  | spawn o =>
    by_cases hi : i<c.threads.length
    · exact hold i t (by rwa [Threads.step,List.getElem?_append_left hi] at ht) nofun
    · rw [Threads.step,List.getElem?_append_right (by omega)] at ht
      obtain rfl := List.mem_singleton.mp (List.mem_of_getElem? ht)
      exact hprog o _
  | go j =>
    by_cases hij : j=i
    · subst hij
      rw [step] at ht ⊢
      unfold Config.go at ht ⊢
      split
      · next l f k hj =>
        have hlt := (List.getElem?_eq_some_iff.mp hj).1
        simp only [hj,List.getElem?_set_self hlt,Option.some.injEq] at ht
        subst ht
        exact (h.threads j _ hj c.state h.inv (.refl _ _)).2
      · next hj =>
        split at ht
        · next l f k hj' => exact absurd hj' (hj l f k)
        · exact h.threads j t ht
    · refine hold i t ?_ fun hm => hij (Move.go.inj hm)
      rw [step,Config.go] at ht
      split at ht
      · rwa [List.getElem?_set_ne hij] at ht
      · exact ht

/-- What a move of a run keeps. -/
structure Kept (C : Pact σ Λ) (S : System σ Λ ε O E) (P : Config σ Λ ε → Move O E → Prop)
    (c : Config σ Λ ε) (m : Move O E) : Prop where
  cond : P c m
  inv : C.inv c.state
  owes : ∀ l ∈ c.label m, C.owes l c.state (Threads.step S c m).state
  onward : C.inv (Threads.step S c m).state ∧ C.goes c.state (Threads.step S c m).state

/-- In a run whose moves disturb no thread every access is as owed. -/
theorem throughout {P : Config σ Λ ε → Move O E → Prop} (henv : Calm C S)
    (hprog : ∀ o s, C.Meets (S.program o) (fun _ _ => True) s) {ms : List (Move O E)}
    (hP : ∀ c m, P c m → Undisturbed C.toCare S c m) (h : Holds C c)
    (hms : Machine.Throughout (Threads.step S) P c ms) :
    Machine.Throughout (Threads.step S) (Kept C S P) c ms :=
  Machine.throughout_of_invariant (fun _ _ h hu => h.step henv hprog (hP _ _ hu))
    (fun _ m h hu => ⟨hu,h.inv,fun l hl => h.owes (m := m) l hl,h.goes henv⟩) h hms

/-- Over a run the state goes on, and the invariant holds in the end. -/
theorem run_goes {P : Config σ Λ ε → Move O E → Prop} {ms : List (Move O E)} (hi : C.inv c.state)
    (h : Machine.Throughout (Threads.step S) (Kept C S P) c ms) :
    C.inv (Machine.run (Threads.step S) c ms).state ∧
      C.goes c.state (Machine.run (Threads.step S) c ms).state := by
  induction ms generalizing c with
  | nil => exact ⟨hi,C.goes_refl _⟩
  | cons m ms ih =>
    obtain ⟨hi',hg⟩ := ih h.1.onward.1 h.2
    exact ⟨hi',C.goes_trans _ _ _ h.1.onward.2 hg⟩

end Pact
end Threads
