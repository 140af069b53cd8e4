import Mathlib.Data.Nat.Notation
import Mathlib.Logic.Basic

/-! Cooperative single-threaded programs.  A program runs without interruption between two
awaits: it reads and writes one shared state, and it gives the control up only at a request
whose answer type depends on the request.  Writes carry a label naming the writer. -/
namespace Coop

/-- A resumable computation over a shared state `σ`, with write labels `Λ`, requests `Q`
answered in `R`, and errors `ε`. -/
inductive Prog (σ Λ Q : Type) (R : Q → Type) (ε α : Type) : Type where
  | done (a : α)
  | fail (e : ε)
  | get (k : σ → Prog σ Λ Q R ε α)
  | put (l : Λ) (s : σ) (p : Prog σ Λ Q R ε α)
  | await (q : Q) (k : R q → Prog σ Λ Q R ε α)

namespace Prog

variable {σ Λ Q : Type} {R : Q → Type} {ε α β γ : Type}

/-- Sequencing; an error of the first part skips the second. -/
def bind : Prog σ Λ Q R ε α → (α → Prog σ Λ Q R ε β) → Prog σ Λ Q R ε β
  | done a, f => f a
  | fail e, _ => fail e
  | get k, f => get fun s => (k s).bind f
  | put l s p, f => put l s (p.bind f)
  | await q k, f => await q fun r => (k r).bind f

instance : Monad (Prog σ Λ Q R ε) where
  pure := done
  bind := bind

@[simp] theorem pure_eq (a : α) : (pure a : Prog σ Λ Q R ε α) = done a := rfl

@[simp] theorem done_bind (a : α) (f : α → Prog σ Λ Q R ε β) : (done a >>= f) = f a := rfl

@[simp] theorem fail_bind (e : ε) (f : α → Prog σ Λ Q R ε β) : (fail e >>= f) = fail e := rfl

@[simp] theorem get_bind (k : σ → Prog σ Λ Q R ε α) (f : α → Prog σ Λ Q R ε β) :
    (get k >>= f) = get fun s => k s >>= f := rfl

@[simp] theorem put_bind (l : Λ) (s : σ) (p : Prog σ Λ Q R ε α) (f : α → Prog σ Λ Q R ε β) :
    (put l s p >>= f) = put l s (p >>= f) := rfl

@[simp] theorem await_bind (q : Q) (k : R q → Prog σ Λ Q R ε α) (f : α → Prog σ Λ Q R ε β) :
    (await q k >>= f) = await q fun r => k r >>= f := rfl

theorem bind_done (p : Prog σ Λ Q R ε α) : (p >>= done) = p := by
  induction p with
  | done a => rfl
  | fail e => rfl
  | get k ih => simp only [get_bind,ih]
  | put l s p ih => simp only [put_bind,ih]
  | await q k ih => simp only [await_bind,ih]

theorem bind_assoc (p : Prog σ Λ Q R ε α) (f : α → Prog σ Λ Q R ε β)
    (g : β → Prog σ Λ Q R ε γ) : (p >>= f >>= g) = (p >>= fun a => f a >>= g) := by
  induction p with
  | done a => rfl
  | fail e => rfl
  | get k ih => simp only [get_bind,ih]
  | put l s p ih => simp only [put_bind,ih]
  | await q k ih => simp only [await_bind,ih]

instance : LawfulMonad (Prog σ Λ Q R ε) :=
  LawfulMonad.mk' _ bind_done (fun _ _ => rfl) bind_assoc

/-- The current shared state. -/
def read : Prog σ Λ Q R ε σ := get done

/-- Replaces the shared state by its image under `f`. -/
def update (l : Λ) (f : σ → σ) : Prog σ Λ Q R ε Unit := get fun s => put l (f s) (done ())

/-- Sends a request and suspends until its answer is delivered. -/
def request (q : Q) : Prog σ Λ Q R ε (R q) := await q done

/-- Runs the program, and updates the state when it ends, normally or with an error. -/
def ensure (l : Λ) (f : σ → σ) : Prog σ Λ Q R ε α → Prog σ Λ Q R ε α
  | done a => get fun s => put l (f s) (done a)
  | fail e => get fun s => put l (f s) (fail e)
  | get k => get fun s => (k s).ensure l f
  | put l' s p => put l' s (p.ensure l f)
  | await q k => await q fun r => (k r).ensure l f

/-- Runs the program; its error is caught. -/
def attempt : Prog σ Λ Q R ε α → Prog σ Λ Q R ε (Except ε α)
  | done a => done (.ok a)
  | fail e => done (.error e)
  | get k => get fun s => (k s).attempt
  | put l s p => put l s p.attempt
  | await q k => await q fun r => (k r).attempt

/-- Runs the program only under a condition. -/
def onlyIf (c : Prop) [Decidable c] (p : Prog σ Λ Q R ε Unit) : Prog σ Λ Q R ε Unit :=
  if c then p else done ()

@[simp] theorem read_bind (f : σ → Prog σ Λ Q R ε β) : (read >>= f) = get f := rfl

@[simp] theorem update_bind (l : Λ) (g : σ → σ) (f : Unit → Prog σ Λ Q R ε β) :
    (update l g >>= f) = get fun s => put l (g s) (f ()) := rfl

@[simp] theorem request_bind (q : Q) (f : R q → Prog σ Λ Q R ε β) :
    (request q >>= f) = await q f := rfl

end Prog
end Coop

/-! Executions of one program among others.  While a program is suspended the state and the
outside world may change in any way; the trace records what each await started from and what
it came back to, so that assumptions on the surroundings are predicates on the trace. -/
namespace Coop

/-- One observable step: a labelled write with the state and world it starts from, or a request
with its answer and the state and world at its issue and at its delivery. -/
inductive Event (σ ω Λ Q : Type) (R : Q → Type) where
  | put (l : Λ) (s : σ) (w : ω) (s' : σ)
  | call (q : Q) (r : R q) (s : σ) (w : ω) (s' : σ) (w' : ω)

variable {σ ω Λ Q : Type} {R : Q → Type} {ε α β : Type}

/-- The request of a step, if it is one. -/
def Event.request? : Event σ ω Λ Q R → Option Q
  | .put _ _ _ _ => none
  | .call q _ _ _ _ _ => some q

/-- The requests of a trace, in order. -/
def requests (tr : List (Event σ ω Λ Q R)) : List Q := tr.filterMap Event.request?

@[simp] theorem requests_nil : requests ([] : List (Event σ ω Λ Q R))=[] := rfl

@[simp] theorem requests_put (l : Λ) (s s' : σ) (w : ω) (tr : List (Event σ ω Λ Q R)) :
    requests (.put l s w s'::tr)=requests tr := rfl

@[simp] theorem requests_call (q : Q) (r : R q) (s s' : σ) (w w' : ω)
    (tr : List (Event σ ω Λ Q R)) : requests (.call q r s w s' w'::tr)=q::requests tr := rfl

@[simp] theorem requests_append (t₁ t₂ : List (Event σ ω Λ Q R)) :
    requests (t₁++t₂)=requests t₁++requests t₂ := List.filterMap_append

theorem requests_flatMap (f : β → List (Event σ ω Λ Q R)) (bs : List β) :
    requests (bs.flatMap f)=bs.flatMap fun b => requests (f b) := by
  simp only [requests,List.filterMap_flatMap]

/-- Terminated executions, with arbitrary interference at every await. -/
inductive Exec : Prog σ Λ Q R ε α → σ → ω → List (Event σ ω Λ Q R) → Except ε α → σ → ω → Prop
  | done {a : α} {s : σ} {w : ω} : Exec (.done a) s w [] (.ok a) s w
  | fail {e : ε} {s : σ} {w : ω} : Exec (.fail e) s w [] (.error e) s w
  | get {k : σ → Prog σ Λ Q R ε α} {s : σ} {w : ω} {tr : List (Event σ ω Λ Q R)}
      {x : Except ε α} {s' : σ} {w' : ω} (h : Exec (k s) s w tr x s' w') :
      Exec (.get k) s w tr x s' w'
  | put {l : Λ} {s₁ : σ} {p : Prog σ Λ Q R ε α} {s : σ} {w : ω} {tr : List (Event σ ω Λ Q R)}
      {x : Except ε α} {s' : σ} {w' : ω} (h : Exec p s₁ w tr x s' w') :
      Exec (.put l s₁ p) s w (.put l s w s₁::tr) x s' w'
  | await {q : Q} {k : R q → Prog σ Λ Q R ε α} {r : R q} {s s₁ : σ} {w w₁ : ω}
      {tr : List (Event σ ω Λ Q R)} {x : Except ε α} {s' : σ} {w' : ω}
      (h : Exec (k r) s₁ w₁ tr x s' w') :
      Exec (.await q k) s w (.call q r s w s₁ w₁::tr) x s' w'

namespace Exec

variable {s s' : σ} {w w' : ω} {tr : List (Event σ ω Λ Q R)} {x : Except ε α}

@[simp] theorem done_iff {a : α} :
    Exec (.done a) s w tr x s' w' ↔ tr=[] ∧ x=.ok a ∧ s'=s ∧ w'=w := by
  constructor
  · rintro ⟨⟩
    exact ⟨rfl,rfl,rfl,rfl⟩
  · rintro ⟨rfl,rfl,rfl,rfl⟩
    exact .done

@[simp] theorem fail_iff {e : ε} :
    Exec (.fail e) s w tr x s' w' ↔ tr=[] ∧ x=.error e ∧ s'=s ∧ w'=w := by
  constructor
  · rintro ⟨⟩
    exact ⟨rfl,rfl,rfl,rfl⟩
  · rintro ⟨rfl,rfl,rfl,rfl⟩
    exact .fail

@[simp] theorem get_iff {k : σ → Prog σ Λ Q R ε α} :
    Exec (.get k) s w tr x s' w' ↔ Exec (k s) s w tr x s' w' := by
  constructor
  · rintro ⟨⟩
    assumption
  · exact .get

@[simp] theorem put_iff {l : Λ} {s₁ : σ} {p : Prog σ Λ Q R ε α} :
    Exec (.put l s₁ p) s w tr x s' w' ↔
      ∃ tr', tr=.put l s w s₁::tr' ∧ Exec p s₁ w tr' x s' w' := by
  constructor
  · rintro ⟨⟩
    exact ⟨_,rfl,by assumption⟩
  · rintro ⟨tr',rfl,h⟩
    exact .put h

@[simp] theorem await_iff {q : Q} {k : R q → Prog σ Λ Q R ε α} :
    Exec (.await q k) s w tr x s' w' ↔
      ∃ r s₁ w₁ tr', tr=.call q r s w s₁ w₁::tr' ∧ Exec (k r) s₁ w₁ tr' x s' w' := by
  constructor
  · rintro ⟨⟩
    exact ⟨_,_,_,_,rfl,by assumption⟩
  · rintro ⟨r,s₁,w₁,tr',rfl,h⟩
    exact .await h

/-- An execution of a sequence splits at the value of its first part. -/
theorem bind_iff {p : Prog σ Λ Q R ε α} {f : α → Prog σ Λ Q R ε β} {y : Except ε β} :
    Exec (p >>= f) s w tr y s' w' ↔
      (∃ a s₁ w₁ t₁ t₂, tr=t₁++t₂ ∧ Exec p s w t₁ (.ok a) s₁ w₁ ∧ Exec (f a) s₁ w₁ t₂ y s' w') ∨
      (∃ e, y=.error e ∧ Exec p s w tr (.error e) s' w') := by
  induction p generalizing s w tr with
  | done a =>
    constructor
    · intro h
      exact .inl ⟨a,s,w,[],tr,rfl,.done,h⟩
    · rintro (⟨b,s₁,w₁,t₁,t₂,rfl,h₁,h₂⟩|⟨e,rfl,h⟩)
      · cases h₁
        exact h₂
      · cases h
  | fail e =>
    constructor
    · intro h
      obtain ⟨rfl,rfl,rfl,rfl⟩ := fail_iff.mp h
      exact .inr ⟨e,rfl,.fail⟩
    · rintro (⟨b,s₁,w₁,t₁,t₂,rfl,h₁,h₂⟩|⟨e',rfl,h⟩)
      · cases h₁
      · cases h
        exact .fail
  | get k ih => simpa using ih s
  | put l s₁ p ih =>
    simp only [Prog.put_bind,put_iff,ih]
    constructor
    · rintro ⟨tr',rfl,⟨a,s₂,w₂,t₁,t₂,rfl,h₁,h₂⟩|⟨e,rfl,h⟩⟩
      · exact .inl ⟨a,s₂,w₂,_,t₂,rfl,⟨_,rfl,h₁⟩,h₂⟩
      · exact .inr ⟨e,rfl,_,rfl,h⟩
    · rintro (⟨a,s₂,w₂,_,t₂,rfl,⟨t₁,rfl,h₁⟩,h₂⟩|⟨e,rfl,t,rfl,h⟩)
      · exact ⟨t₁++t₂,rfl,.inl ⟨a,s₂,w₂,t₁,t₂,rfl,h₁,h₂⟩⟩
      · exact ⟨t,rfl,.inr ⟨e,rfl,h⟩⟩
  | await q k ih =>
    simp only [Prog.await_bind,await_iff,ih]
    constructor
    · rintro ⟨r,s₁,w₁,tr',rfl,⟨a,s₂,w₂,t₁,t₂,rfl,h₁,h₂⟩|⟨e,rfl,h⟩⟩
      · exact .inl ⟨a,s₂,w₂,_,t₂,rfl,⟨r,s₁,w₁,_,rfl,h₁⟩,h₂⟩
      · exact .inr ⟨e,rfl,r,s₁,w₁,_,rfl,h⟩
    · rintro (⟨a,s₂,w₂,_,t₂,rfl,⟨r,s₁,w₁,t₁,rfl,h₁⟩,h₂⟩|⟨e,rfl,r,s₁,w₁,t,rfl,h⟩)
      · exact ⟨r,s₁,w₁,t₁++t₂,rfl,.inl ⟨a,s₂,w₂,t₁,t₂,rfl,h₁,h₂⟩⟩
      · exact ⟨r,s₁,w₁,t,rfl,.inr ⟨e,rfl,h⟩⟩

theorem bind_ok {p : Prog σ Λ Q R ε α} {f : α → Prog σ Λ Q R ε β} {y : Except ε β} {a : α}
    {s₁ : σ} {w₁ : ω} {t₁ t₂ : List (Event σ ω Λ Q R)} (h₁ : Exec p s w t₁ (.ok a) s₁ w₁)
    (h₂ : Exec (f a) s₁ w₁ t₂ y s' w') : Exec (p >>= f) s w (t₁++t₂) y s' w' :=
  bind_iff.mpr (.inl ⟨a,s₁,w₁,t₁,t₂,rfl,h₁,h₂⟩)

/-- The scripted execution: answers by position and request, and what happens to the state
while the program is suspended. -/
def play (o : ℕ → (q : Q) → R q) (d : ℕ → σ → σ) (w : ω) :
    Prog σ Λ Q R ε α → ℕ → σ → List (Event σ ω Λ Q R) × Except ε α × σ
  | .done a, _, s => ([],.ok a,s)
  | .fail e, _, s => ([],.error e,s)
  | .get k, n, s => play o d w (k s) n s
  | .put l s₁ p, n, s => ((Event.put l s w s₁)::(play o d w p n s₁).1,(play o d w p n s₁).2)
  | .await q k, n, s =>
    ((Event.call q (o n q) s w (d n s) w)::(play o d w (k (o n q)) (n+1) (d n s)).1,
      (play o d w (k (o n q)) (n+1) (d n s)).2)

theorem of_play (o : ℕ → (q : Q) → R q) (d : ℕ → σ → σ) (w : ω) (p : Prog σ Λ Q R ε α)
    (n : ℕ) (s : σ) : Exec p s w (play o d w p n s).1 (play o d w p n s).2.1
      (play o d w p n s).2.2 w := by
  induction p generalizing n s with
  | done a => exact .done
  | fail e => exact .fail
  | get k ih => exact .get (ih s n s)
  | put l s₁ p ih => exact .put (ih n s₁)
  | await q k ih => exact .await (ih (o n q) (n+1) (d n s))

/-- The answers and the interference of a scripted execution are the script's. -/
theorem call_mem_play {o : ℕ → (q : Q) → R q} {d : ℕ → σ → σ} {w w₁ w₂ : ω} {q : Q} {r : R q}
    {s₁ s₂ : σ} (p : Prog σ Λ Q R ε α) (n : ℕ) (s : σ)
    (h : Event.call q r s₁ w₁ s₂ w₂ ∈ (play o d w p n s).1) : ∃ m, r=o m q ∧ s₂=d m s₁ := by
  induction p generalizing n s with
  | done a => cases h
  | fail e => cases h
  | get k ih => exact ih s n s h
  | put l s₁ p ih =>
    rcases List.mem_cons.mp h with h|h
    · cases h
    · exact ih n s₁ h
  | await q k ih =>
    rcases List.mem_cons.mp h with h|h
    · cases h
      exact ⟨n,rfl,rfl⟩
    · exact ih (o n q) (n+1) (d n s) h

end Exec

/-- The part of a loop's execution that belongs to one element. -/
structure Visit (β : Type) (σ ω Λ Q : Type) (R : Q → Type) where
  item : β
  pre : σ
  world : ω
  trace : List (Event σ ω Λ Q R)

/-- A loop run over its elements, one visit each, up to the first visit that fails. -/
inductive Visits (f : β → Prog σ Λ Q R ε Unit) :
    List β → σ → ω → List (Visit β σ ω Λ Q R) → Except ε Unit → σ → ω → Prop
  | nil {s : σ} {w : ω} : Visits f [] s w [] (.ok ()) s w
  | cons {b : β} {bs : List β} {s s₁ s' : σ} {w w₁ w' : ω} {tr : List (Event σ ω Λ Q R)}
      {vs : List (Visit β σ ω Λ Q R)} {x : Except ε Unit} (h : Exec (f b) s w tr (.ok ()) s₁ w₁)
      (hs : Visits f bs s₁ w₁ vs x s' w') : Visits f (b::bs) s w (⟨b,s,w,tr⟩::vs) x s' w'
  | stop {b : β} {bs : List β} {s s' : σ} {w w' : ω} {tr : List (Event σ ω Λ Q R)} {e : ε}
      (h : Exec (f b) s w tr (.error e) s' w') :
      Visits f (b::bs) s w [⟨b,s,w,tr⟩] (.error e) s' w'

namespace Visits

variable {f : β → Prog σ Λ Q R ε Unit} {bs : List β} {s s' : σ} {w w' : ω}
  {vs : List (Visit β σ ω Λ Q R)} {x : Except ε Unit}

/-- Every execution of a loop is its list of visits. -/
theorem of_exec {tr : List (Event σ ω Λ Q R)} (h : Exec (bs.forM f) s w tr x s' w') :
    ∃ vs : List (Visit β σ ω Λ Q R), Visits f bs s w vs x s' w' ∧ tr=vs.flatMap Visit.trace := by
  induction bs generalizing s w tr with
  | nil =>
    obtain ⟨rfl,rfl,rfl,rfl⟩ := Exec.done_iff.mp h
    exact ⟨[],.nil,rfl⟩
  | cons b bs ih =>
    obtain ⟨a,s₁,w₁,t₁,t₂,rfl,h₁,h₂⟩|⟨e,rfl,h₁⟩ := Exec.bind_iff.mp h
    · obtain ⟨vs,hv,rfl⟩ := ih h₂
      exact ⟨_,.cons h₁ hv,rfl⟩
    · exact ⟨_,.stop h₁,by simp⟩

/-- A loop that ends normally visits every element, in order. -/
theorem items (h : Visits f bs s w vs (.ok ()) s' w') : vs.map Visit.item=bs := by
  induction bs generalizing s w vs with
  | nil =>
    cases h
    rfl
  | cons b bs ih =>
    cases h with
    | cons h₁ hs => simp [ih hs]

/-- The scripted loop: a script for each element. -/
def play (f : β → Prog σ Λ Q R ε Unit) (o : β → ℕ → (q : Q) → R q) (d : β → ℕ → σ → σ) (w : ω) :
    List β → σ → List (Visit β σ ω Λ Q R) × Except ε Unit × σ
  | [], s => ([],.ok (),s)
  | b::bs, s =>
    match Exec.play (o b) (d b) w (f b) 0 s with
    | (tr,.ok _,s₁) => (⟨b,s,w,tr⟩::(play f o d w bs s₁).1,(play f o d w bs s₁).2)
    | (tr,.error e,s₁) => ([⟨b,s,w,tr⟩],.error e,s₁)

theorem of_play (o : β → ℕ → (q : Q) → R q) (d : β → ℕ → σ → σ) (bs : List β) (s : σ) :
    Visits f bs s w (play f o d w bs s).1 (play f o d w bs s).2.1 (play f o d w bs s).2.2 w := by
  induction bs generalizing s with
  | nil => exact .nil
  | cons b bs ih =>
    have hb := Exec.of_play (o b) (d b) w (f b) 0 s
    unfold play
    match hp : Exec.play (o b) (d b) w (f b) 0 s with
    | (tr,.ok a,s₁) =>
      rw [hp] at hb
      exact .cons hb (ih s₁)
    | (tr,.error e,s₁) =>
      rw [hp] at hb
      exact .stop hb

/-- Each visit is an execution of the loop body at its element. -/
theorem exec_of_mem (h : Visits f bs s w vs x s' w') {v : Visit β σ ω Λ Q R} (hv : v ∈ vs) :
    v.item ∈ bs ∧ ∃ y s₁ w₁, Exec (f v.item) v.pre v.world v.trace y s₁ w₁ := by
  induction h with
  | nil => cases hv
  | cons h₁ _ ih =>
    rcases List.mem_cons.mp hv with rfl|hv
    · exact ⟨by simp,_,_,_,h₁⟩
    · exact ⟨List.mem_cons_of_mem _ (ih hv).1,(ih hv).2⟩
  | stop h₁ =>
    obtain rfl := List.mem_singleton.mp hv
    exact ⟨by simp,_,_,_,h₁⟩

end Visits
end Coop
