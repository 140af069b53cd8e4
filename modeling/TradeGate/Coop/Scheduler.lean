import Mathlib.Data.List.Basic
import Mathlib.Logic.Relation
import TradeGate.Coop.Contract

/-! Many programs over one state.  A task runs alone until it suspends at a request.  While it is
suspended the outside world serves the request, other tasks run, and the surroundings may change
the state; the answer is delivered some time after it was served. -/
namespace Coop

variable {σ ω Λ Q O : Type} {R : Q → Type} {ε : Type}

/-- A suspended program: its request is outstanding, or served and not yet delivered. -/
inductive Susp (σ Λ Q : Type) (R : Q → Type) (ε : Type) where
  | waiting (q : Q) (k : R q → Prog σ Λ Q R ε Unit)
  | served (q : Q) (r : R q) (k : R q → Prog σ Λ Q R ε Unit)

/-- One labelled write, with the states around it. -/
structure Write (σ Λ : Type) where
  label : Λ
  pre : σ
  post : σ

/-- The run of a program up to its next suspension. -/
structure Burst (σ Λ Q : Type) (R : Q → Type) (ε : Type) where
  writes : List (Write σ Λ)
  state : σ
  rest : Option (Susp σ Λ Q R ε)

def Prog.burst : Prog σ Λ Q R ε Unit → σ → Burst σ Λ Q R ε
  | .done _, s => ⟨[],s,none⟩
  | .fail _, s => ⟨[],s,none⟩
  | .get k, s => (k s).burst s
  | .put l s' p, s => { p.burst s' with writes := ⟨l,s,s'⟩::(p.burst s').writes }
  | .await q k, s => ⟨[],s,some (.waiting q k)⟩

/-- A suspended operation. -/
structure Task (σ Λ Q : Type) (R : Q → Type) (ε O : Type) where
  op : O
  susp : Susp σ Λ Q R ε

structure Config (σ ω Λ Q : Type) (R : Q → Type) (ε O : Type) where
  state : σ
  world : ω
  tasks : List (Task σ Λ Q R ε O)

/-- The operations and their programs, what the world knows of a request on its way and what it
may answer, and how the surroundings move. -/
structure System (σ ω Λ Q : Type) (R : Q → Type) (ε O : Type) where
  program : O → Prog σ Λ Q R ε Unit
  send : ω → Q → ω
  serve : σ → ω → (q : Q) → R q → ω → Prop
  drift : σ → ω → σ → ω → Prop

/-- What a step did: the operation that ran, its writes and the request it sent, and the tasks
that were suspended meanwhile. -/
structure Action (σ Λ Q : Type) (R : Q → Type) (ε O : Type) where
  op : Option O
  writes : List (Write σ Λ)
  sent : Option Q
  others : List (Task σ Λ Q R ε O)

/-- The burst's task, if it suspended again. -/
def Burst.task (b : Burst σ Λ Q R ε) (o : O) : List (Task σ Λ Q R ε O) :=
  (b.rest.map (Task.mk o)).toList

def Susp.request : Susp σ Λ Q R ε → Q
  | .waiting q _ => q
  | .served q _ _ => q

/-- The request is answered. -/
def Susp.answered : Susp σ Λ Q R ε → Bool
  | .waiting _ _ => false
  | .served _ _ _ => true

/-- The request the burst suspended at. -/
def Burst.sent (b : Burst σ Λ Q R ε) : Option Q := b.rest.map Susp.request

/-- The burst of an operation as an action. -/
def Burst.action (b : Burst σ Λ Q R ε) (o : O) (others : List (Task σ Λ Q R ε O)) :
    Action σ Λ Q R ε O := ⟨some o,b.writes,b.sent,others⟩

/-- A step in which no operation ran. -/
def Action.outside (others : List (Task σ Λ Q R ε O)) : Action σ Λ Q R ε O := ⟨none,[],none,others⟩

/-- What holds of the task a burst leaves and of the tasks before it, holds of all these. -/
theorem Burst.forall_last {b : Burst σ Λ Q R ε} {o : O} {ts : List (Task σ Λ Q R ε O)}
    {P : Task σ Λ Q R ε O → Prop} (hb : ∀ x ∈ b.rest, P ⟨o,x⟩) (h : ∀ t ∈ ts, P t) :
    ∀ t ∈ ts++b.task o, P t := by
  intro t ht
  rcases List.mem_append.mp ht with ht|ht
  · exact h t ht
  · obtain ⟨x,hx,rfl⟩ := Option.map_eq_some_iff.mp (Option.mem_toList.mp ht)
    exact hb x hx

/-- What holds of the task a burst leaves and of the others, holds of all tasks. -/
theorem Burst.forall_task {b : Burst σ Λ Q R ε} {o : O} {pre post : List (Task σ Λ Q R ε O)}
    {P : Task σ Λ Q R ε O → Prop} (hb : ∀ x ∈ b.rest, P ⟨o,x⟩) (h : ∀ t ∈ pre++post, P t) :
    ∀ t ∈ pre++b.task o++post, P t := by
  rw [List.forall_mem_append] at h ⊢
  exact ⟨forall_last hb h.1,h.2⟩

variable (S : System σ ω Λ Q R ε O)

/-- The world once a request, if there is one, is on its way. -/
def System.after (w : ω) (q : Option Q) : ω := q.elim w (S.send w)

inductive Step : Config σ ω Λ Q R ε O → Action σ Λ Q R ε O → Config σ ω Λ Q R ε O → Prop
  | start {s : σ} {w : ω} {ts : List (Task σ Λ Q R ε O)} (o : O) :
      Step ⟨s,w,ts⟩ (((S.program o).burst s).action o ts)
        ⟨((S.program o).burst s).state,S.after w ((S.program o).burst s).sent,
          ts++((S.program o).burst s).task o⟩
  | serve {s : σ} {w w' : ω} {pre post : List (Task σ Λ Q R ε O)} {o : O} {q : Q}
      {k : R q → Prog σ Λ Q R ε Unit} {r : R q} (h : S.serve s w q r w') :
      Step ⟨s,w,pre++⟨o,.waiting q k⟩::post⟩ (.outside (pre++post))
        ⟨s,w',pre++⟨o,.served q r k⟩::post⟩
  | resume {s : σ} {w : ω} {pre post : List (Task σ Λ Q R ε O)} {o : O} {q : Q} {r : R q}
      {k : R q → Prog σ Λ Q R ε Unit} :
      Step ⟨s,w,pre++⟨o,.served q r k⟩::post⟩ (((k r).burst s).action o (pre++post))
        ⟨((k r).burst s).state,S.after w ((k r).burst s).sent,
          pre++((k r).burst s).task o++post⟩
  | drift {s s' : σ} {w w' : ω} {ts : List (Task σ Λ Q R ε O)} (h : S.drift s w s' w') :
      Step ⟨s,w,ts⟩ (.outside ts) ⟨s',w',ts⟩

/-- Writes that lead from one state to another, each from where the last one ended. -/
def Chain : List (Write σ Λ) → σ → σ → Prop
  | [], s, s' => s'=s
  | x::xs, s, s' => x.pre=s ∧ Chain xs x.post s'

/-- What every write keeps holds after each of them and at the end of the chain. -/
theorem Chain.keeps {xs : List (Write σ Λ)} {s s' : σ} (P : σ → Prop) (h : Chain xs s s')
    (hx : ∀ x ∈ xs, P x.pre → P x.post) (hs : P s) : P s' ∧ ∀ x ∈ xs, P x.post := by
  induction xs generalizing s with
  | nil =>
    obtain rfl := h
    exact ⟨hs,by simp⟩
  | cons x xs ih =>
    obtain ⟨rfl,h⟩ := h
    obtain ⟨hx,hxs⟩ := List.forall_mem_cons.mp hx
    obtain ⟨h₁,h₂⟩ := ih h hxs (hx hs)
    exact ⟨h₁,List.forall_mem_cons.mpr ⟨hx hs,h₂⟩⟩

/-- What every write keeps of the state before it, the chain keeps from each write on. -/
theorem Chain.goes {xs : List (Write σ Λ)} {s s' : σ} {r : σ → σ → Prop} (refl : ∀ s, r s s)
    (trans : ∀ s s' s'', r s s' → r s' s'' → r s s'') (h : Chain xs s s')
    (hx : ∀ x ∈ xs, r x.pre x.post) : r s s' ∧ ∀ x ∈ xs, r x.post s' := by
  induction xs generalizing s with
  | nil =>
    obtain rfl := h
    exact ⟨refl _,by simp⟩
  | cons x xs ih =>
    obtain ⟨rfl,h⟩ := h
    obtain ⟨hx,hxs⟩ := List.forall_mem_cons.mp hx
    obtain ⟨h₁,h₂⟩ := ih h hxs
    exact ⟨trans _ _ _ hx h₁,List.forall_mem_cons.mpr ⟨h₁,h₂⟩⟩

theorem Prog.burst_chain (p : Prog σ Λ Q R ε Unit) (s : σ) :
    Chain (p.burst s).writes s (p.burst s).state := by
  induction p generalizing s with
  | done a => rfl
  | fail e => rfl
  | get k ih => exact ih s s
  | put l s₁ p ih => exact ⟨rfl,ih s₁⟩
  | await q k ih => rfl

/-- Runs whose steps all meet a condition. -/
inductive Run (ok : Config σ ω Λ Q R ε O → Action σ Λ Q R ε O → Config σ ω Λ Q R ε O → Prop)
    (c₀ : Config σ ω Λ Q R ε O) : Config σ ω Λ Q R ε O → Prop
  | refl : Run ok c₀ c₀
  | step {c c' : Config σ ω Λ Q R ε O} {a : Action σ Λ Q R ε O} (h : Run ok c₀ c)
      (hs : Step S c a c') (ha : ok c a c') : Run ok c₀ c'

/-- Every step is allowed. -/
def anyStep (_ : Config σ ω Λ Q R ε O) (_ : Action σ Λ Q R ε O) (_ : Config σ ω Λ Q R ε O) : Prop :=
  True

variable {S}

/-- What a step is: a burst of an operation, the service of a request, or a move of the
surroundings. -/
theorem Step.kind {c c' : Config σ ω Λ Q R ε O} {a : Action σ Λ Q R ε O} (h : Step S c a c') :
    (∃ o, a.op=some o ∧ Chain a.writes c.state c'.state ∧ c'.world=S.after c.world a.sent) ∨
    (a.op=none ∧ a.writes=[] ∧ a.sent=none ∧ c'.state=c.state ∧
      ∃ q r, S.serve c.state c.world q r c'.world) ∨
    (a.op=none ∧ a.writes=[] ∧ a.sent=none ∧ S.drift c.state c.world c'.state c'.world) := by
  cases h with
  | start o => exact .inl ⟨o,rfl,Prog.burst_chain _ _,rfl⟩
  | serve hs => exact .inr (.inl ⟨rfl,rfl,rfl,rfl,_,_,hs⟩)
  | resume => exact .inl ⟨_,rfl,Prog.burst_chain _ _,rfl⟩
  | drift hd => exact .inr (.inr ⟨rfl,rfl,rfl,hd⟩)

/-- An invariant of the configuration that every permitted step keeps. -/
theorem Run.invariant {ok : Config σ ω Λ Q R ε O → Action σ Λ Q R ε O → Config σ ω Λ Q R ε O → Prop}
    {c₀ c : Config σ ω Λ Q R ε O} {I : Config σ ω Λ Q R ε O → Prop} (h : Run S ok c₀ c)
    (h₀ : I c₀) (hs : ∀ c a c', I c → Step S c a c' → ok c a c' → I c') : I c := by
  induction h with
  | refl => exact h₀
  | step _ hs' ha ih => exact hs _ _ _ ih hs' ha

/-! Scripted runs: a list of moves determines the configuration they lead to. -/

inductive Move (σ ω Q : Type) (R : Q → Type) (O : Type) where
  | start (o : O)
  | serve (i : ℕ) (answer : (q : Q) → R q) (world : ω → ω)
  | resume (i : ℕ)
  | drift (state : σ → σ) (world : ω → ω)

namespace Config

variable (S)

/-- The configuration after a move; a move that does not apply changes nothing. -/
def move (c : Config σ ω Λ Q R ε O) : Move σ ω Q R O → Config σ ω Λ Q R ε O
  | .start o =>
    let b := (S.program o).burst c.state
    ⟨b.state,S.after c.world b.sent,c.tasks++b.task o⟩
  | .serve i answer world =>
    match c.tasks[i]? with
    | some ⟨o,.waiting q k⟩ =>
      ⟨c.state,world c.world,c.tasks.take i++⟨o,.served q (answer q) k⟩::c.tasks.drop (i+1)⟩
    | _ => c
  | .resume i =>
    match c.tasks[i]? with
    | some ⟨o,.served _ r k⟩ =>
      let b := (k r).burst c.state
      ⟨b.state,S.after c.world b.sent,c.tasks.take i++b.task o++c.tasks.drop (i+1)⟩
    | _ => c
  | .drift state world => ⟨state c.state,world c.world,c.tasks⟩

/-- The move answers as the world may, or moves as the surroundings may. -/
def Legal (c : Config σ ω Λ Q R ε O) : Move σ ω Q R O → Prop
  | .start _ => True
  | .serve i answer world => ∀ t ∈ c.tasks[i]?, match t.susp with
    | .waiting q _ => S.serve c.state c.world q (answer q) (world c.world)
    | .served _ _ _ => True
  | .resume _ => True
  | .drift state world => S.drift c.state c.world (state c.state) (world c.world)

def play (c : Config σ ω Λ Q R ε O) : List (Move σ ω Q R O) → Config σ ω Λ Q R ε O
  | [] => c
  | m::ms => (c.move S m).play ms

/-- The tasks that a move passes over. -/
def others (c : Config σ ω Λ Q R ε O) : Move σ ω Q R O → List (Task σ Λ Q R ε O)
  | .start _ => c.tasks
  | .serve i _ _ => c.tasks.take i++c.tasks.drop (i+1)
  | .resume i => c.tasks.take i++c.tasks.drop (i+1)
  | .drift _ _ => c.tasks

/-- What the step of a move did. -/
def act (c : Config σ ω Λ Q R ε O) : Move σ ω Q R O → Action σ Λ Q R ε O
  | .start o => ((S.program o).burst c.state).action o c.tasks
  | .serve i _ _ => .outside (c.tasks.take i++c.tasks.drop (i+1))
  | .resume i =>
    match c.tasks[i]? with
    | some ⟨o,.served _ r k⟩ =>
      ((k r).burst c.state).action o (c.tasks.take i++c.tasks.drop (i+1))
    | _ => .outside (c.tasks.take i++c.tasks.drop (i+1))
  | .drift _ _ => .outside c.tasks

/-- The move finds a task to act on. -/
def Applies (c : Config σ ω Λ Q R ε O) : Move σ ω Q R O → Prop
  | .serve i _ _ => (c.tasks[i]?.any fun t => ¬t.susp.answered)=true
  | .resume i => (c.tasks[i]?.any fun t => t.susp.answered)=true
  | _ => True

instance (c : Config σ ω Λ Q R ε O) : ∀ m, Decidable (c.Applies m)
  | .start _ => inferInstanceAs (Decidable True)
  | .serve _ _ _ => inferInstanceAs (Decidable (_=true))
  | .resume _ => inferInstanceAs (Decidable (_=true))
  | .drift _ _ => inferInstanceAs (Decidable True)

/-- Every move of the script passes the check. -/
def Along (p : Config σ ω Λ Q R ε O → Action σ Λ Q R ε O → Config σ ω Λ Q R ε O → Bool)
    (c : Config σ ω Λ Q R ε O) : List (Move σ ω Q R O) → Bool
  | [] => true
  | m::ms => p c (c.act S m) (c.move S m) && (c.move S m).Along p ms

/-- Every move of the script is legal where it is made. -/
def LegalPlay (c : Config σ ω Λ Q R ε O) : List (Move σ ω Q R O) → Prop
  | [] => True
  | m::ms => c.Legal S m ∧ (c.move S m).LegalPlay ms

end Config

theorem split_of_getElem? {α : Type} {l : List α} {i : ℕ} {a : α} (h : l[i]?=some a) :
    l=l.take i++a::l.drop (i+1) := by
  obtain ⟨hi,rfl⟩ := List.getElem?_eq_some_iff.mp h
  rw [List.getElem_cons_drop,List.take_append_drop]

theorem Config.others_act (c : Config σ ω Λ Q R ε O) (m : Move σ ω Q R O) :
    (c.act S m).others=c.others m := by
  cases m with
  | start o => rfl
  | serve i answer world => rfl
  | drift f g => rfl
  | resume i =>
    dsimp only [Config.act,Config.others]
    split <;> rfl

/-- A legal move is a step if it finds a task to act on. -/
theorem Step.of_applies {c : Config σ ω Λ Q R ε O} {m : Move σ ω Q R O} (h : c.Legal S m)
    (ha : c.Applies m) : Step S c (c.act S m) (c.move S m) := by
  obtain ⟨s,w,ts⟩ := c
  cases m with
  | start o => exact .start o
  | drift f g => exact .drift h
  | serve i answer world =>
    match hi : ts[i]? with
    | none => simp [Config.Applies,hi] at ha
    | some ⟨o,.served _ _ _⟩ => simp [Config.Applies,hi,Susp.answered] at ha
    | some ⟨o,.waiting q k⟩ =>
      simp only [Config.move,Config.act,hi]
      nth_rewrite 1 [split_of_getElem? hi]
      exact .serve (h _ hi)
  | resume i =>
    match hi : ts[i]? with
    | none => simp [Config.Applies,hi] at ha
    | some ⟨o,.waiting _ _⟩ => simp [Config.Applies,hi,Susp.answered] at ha
    | some ⟨o,.served q r k⟩ =>
      simp only [Config.move,Config.act,hi]
      nth_rewrite 1 [split_of_getElem? hi]
      exact .resume

/-- A move that finds no task to act on changes nothing. -/
theorem Config.move_of_not_applies {c : Config σ ω Λ Q R ε O} {m : Move σ ω Q R O}
    (ha : ¬c.Applies m) : c.move S m=c := by
  cases m with
  | start o => exact absurd trivial ha
  | drift f g => exact absurd trivial ha
  | serve i answer world =>
    match hi : c.tasks[i]? with
    | none => simp only [Config.move,hi]
    | some ⟨o,.served _ _ _⟩ => simp only [Config.move,hi]
    | some ⟨o,.waiting q k⟩ => simp [Config.Applies,hi,Susp.answered] at ha
  | resume i =>
    match hi : c.tasks[i]? with
    | none => simp only [Config.move,hi]
    | some ⟨o,.waiting _ _⟩ => simp only [Config.move,hi]
    | some ⟨o,.served q r k⟩ => simp [Config.Applies,hi,Susp.answered] at ha

/-- A legal move is a step, or changes nothing. -/
theorem Step.of_move {c : Config σ ω Λ Q R ε O} {m : Move σ ω Q R O} (h : c.Legal S m) :
    c.move S m=c ∨ Step S c (c.act S m) (c.move S m) := by
  by_cases ha : c.Applies m
  · exact .inr (.of_applies h ha)
  · exact .inl (Config.move_of_not_applies ha)

section
variable {ok : Config σ ω Λ Q R ε O → Action σ Λ Q R ε O → Config σ ω Λ Q R ε O → Prop}
  {c₀ c : Config σ ω Λ Q R ε O} {ms : List (Move σ ω Q R O)}

theorem Run.of_play (h : Run S anyStep c₀ c) (hms : c.LegalPlay S ms) :
    Run S anyStep c₀ (c.play S ms) := by
  induction ms generalizing c with
  | nil => exact h
  | cons m ms ih =>
    rcases Step.of_move hms.1 with hm|hm
    · exact ih (by rw [hm]; exact h) hms.2
    · exact ih (.step h hm trivial) hms.2

/-- A script whose moves all pass a check is a run under any condition that the check ensures. -/
theorem Run.of_along {p : Config σ ω Λ Q R ε O → Action σ Λ Q R ε O → Config σ ω Λ Q R ε O → Bool}
    (h : Run S ok c₀ c) (hms : c.LegalPlay S ms) (hp : c.Along S p ms=true)
    (hok : ∀ c a c', p c a c'=true → ok c a c') : Run S ok c₀ (c.play S ms) := by
  induction ms generalizing c with
  | nil => exact h
  | cons m ms ih =>
    obtain ⟨hm,hms'⟩ := Bool.and_eq_true_iff.mp hp
    rcases Step.of_move hms.1 with he|hs
    · exact ih (by rw [he]; exact h) hms.2 hms'
    · exact ih (.step h hs (hok _ _ _ hm)) hms.2 hms'

end

end Coop
