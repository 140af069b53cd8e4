import TradeGate.Coop.Contract
import TradeGate.Coop.Scheduler

/-! How a shared state goes on.  Every write takes the state along a preorder, and an invariant holds
wherever a program suspends or ends; where an operation relies on nothing else while it is suspended,
every step of a run is as the contract of its operation says. -/
namespace Coop

variable {σ ω Λ Q O : Type} {R : Q → Type} {ε : Type}

/-- What holds of the state between the bursts, and how it goes on. -/
structure Going (σ : Type) where
  inv : σ → Prop
  goes : σ → σ → Prop
  refl : ∀ s, goes s s
  trans : ∀ {s s' s''}, goes s s' → goes s' s'' → goes s s''

namespace Going

variable (T : Going σ)

/-- The program keeps the contract, and the invariant holds where it ends. -/
def Meets (C : Contract σ ω Λ Q R) (p : Prog σ Λ Q R ε Unit) (s : σ) (w : ω) : Prop :=
  C.Meets p (fun _ s _ => T.inv s) s w

/-- The suspended program keeps the contract wherever the state has gone when it goes on. -/
def Ready (C : Contract σ ω Λ Q R) : Susp σ Λ Q R ε → σ → Prop
  | .waiting _ k, s => ∀ r s' w, T.inv s' → T.goes s s' → T.Meets C (k r) s' w
  | .served _ r k, s => ∀ s' w, T.inv s' → T.goes s s' → T.Meets C (k r) s' w

/-- Everything a system has to guarantee: programs start by meeting their contracts, the writes go on
with the state, the invariant holds at the requests and failures, and nothing more is relied on. -/
structure Carries (C : O → Contract σ ω Λ Q R) (S : System σ ω Λ Q R ε O)
    (ok : Config σ ω Λ Q R ε O → Action σ Λ Q R ε O → Config σ ω Λ Q R ε O → Prop) : Prop where
  start : ∀ o s w ts c', T.inv s → ok ⟨s,w,ts⟩ (((S.program o).burst s).action o ts) c' →
    T.Meets (C o) (S.program o) s w
  write : ∀ o s w l s', (C o).write s w l s' → T.goes s s'
  may : ∀ o s w q, (C o).may s w q → T.inv s
  quit : ∀ o s w, (C o).quit s w → T.inv s
  back : ∀ o s w q r s' w', T.inv s → T.inv s' → T.goes s s' → (C o).back s w q r s' w'
  drift : ∀ s w s' w', T.inv s → S.drift s w s' w' → T.inv s' ∧ T.goes s s'

/-- The invariant holds, and every suspended operation is ready to go on. -/
structure Kept (C : O → Contract σ ω Λ Q R) (c : Config σ ω Λ Q R ε O) : Prop where
  inv : T.inv c.state
  tasks : ∀ t ∈ c.tasks, T.Ready (C t.op) t.susp c.state

/-- The writes and the request of a step are as its operation owes them. -/
structure Owed (C : O → Contract σ ω Λ Q R) (c : Config σ ω Λ Q R ε O) (a : Action σ Λ Q R ε O)
    (c' : Config σ ω Λ Q R ε O) : Prop where
  writes : ∀ o ∈ a.op, ∀ x ∈ a.writes, (C o).write x.pre c.world x.label x.post
  sent : ∀ o ∈ a.op, ∀ q ∈ a.sent, (C o).may c'.state c.world q
  goes : T.goes c.state c'.state

variable {T} {C : O → Contract σ ω Λ Q R} {S : System σ ω Λ Q R ε O}
  {ok : Config σ ω Λ Q R ε O → Action σ Λ Q R ε O → Config σ ω Λ Q R ε O → Prop}
  {c c' c₀ : Config σ ω Λ Q R ε O} {a : Action σ Λ Q R ε O} {s s' : σ} {w : ω}

theorem Ready.goes {C : Contract σ ω Λ Q R} {x : Susp σ Λ Q R ε} (h : T.Ready C x s)
    (hs : T.goes s s') : T.Ready C x s' := by
  cases x with
  | waiting q k => exact fun r s₁ w hi hg => h r s₁ w hi (T.trans hs hg)
  | served q r k => exact fun s₁ w hi hg => h s₁ w hi (T.trans hs hg)

variable (hc : T.Carries C S ok)
include hc

/-- A burst writes and asks as owed, takes the state on, and leaves a task that is ready. -/
theorem Carries.burst {o : O} {p : Prog σ Λ Q R ε Unit} (h : T.Meets (C o) p s w) :
    T.inv (p.burst s).state ∧ T.goes s (p.burst s).state ∧
      (∀ x ∈ (p.burst s).writes, (C o).write x.pre w x.label x.post) ∧
      (∀ q ∈ (p.burst s).sent, (C o).may (p.burst s).state w q) ∧
      ∀ x ∈ (p.burst s).rest, T.Ready (C o) x (p.burst s).state := by
  induction p generalizing s with
  | done a => exact ⟨h,T.refl _,by simp [Prog.burst],by simp [Prog.burst,Burst.sent],by simp [Prog.burst]⟩
  | fail e =>
    exact ⟨hc.quit o s w h,T.refl _,by simp [Prog.burst],by simp [Prog.burst,Burst.sent],by simp [Prog.burst]⟩
  | get k ih => exact ih s h
  | put l s₁ p ih =>
    obtain ⟨h₁,h₂,h₃,h₄⟩ := ih h.2
    exact ⟨h₁,T.trans (hc.write o s w l s₁ h.1) h₂,List.forall_mem_cons.mpr ⟨h.1,h₃⟩,h₄⟩
  | await q k ih =>
    have hi : T.inv s := hc.may o s w q h.1
    refine ⟨hi,T.refl _,by simp [Prog.burst],fun q' hq => ?_,fun x hx => ?_⟩
    · cases hq
      exact h.1
    · cases hx
      exact fun r s' w' hi' hg => h.2 r s' w' (hc.back o s w q r s' w' hi hi' hg)

/-- A step of a run is as its operation owes it, and every operation is ready to go on after it. -/
theorem Carries.step (h : T.Kept C c) (hs : Step S c a c') (ha : ok c a c') :
    T.Kept C c' ∧ T.Owed C c a c' := by
  cases hs with
  | @start s v ts o =>
    obtain ⟨hinv,hgoes,hw,hq,hx⟩ := hc.burst (hc.start o s v ts _ h.inv ha)
    refine ⟨⟨hinv,Burst.forall_last hx fun t ht => (h.tasks t ht).goes hgoes⟩,fun o' ho => ?_,fun o' ho => ?_,hgoes⟩ <;> cases ho
    · exact hw
    · exact hq
  | @serve s v v' pre post o q k r hserve =>
    refine ⟨⟨h.inv,fun t ht => ?_⟩,nofun,nofun,T.refl _⟩
    have hold := h.tasks
    simp only [List.forall_mem_append,List.forall_mem_cons] at hold
    rcases List.mem_append.mp ht with ht|ht
    · exact hold.1 t ht
    · rcases List.mem_cons.mp ht with rfl|ht
      · exact hold.2.1 r
      · exact hold.2.2 t ht
  | @resume s v pre post o q r k =>
    have hm : T.Meets (C o) (k r) s v := h.tasks ⟨o,.served q r k⟩ (by simp) s v h.inv (T.refl s)
    obtain ⟨hinv,hgoes,hw,hq,hx⟩ := hc.burst hm
    refine ⟨⟨hinv,Burst.forall_task hx fun t ht => (h.tasks t ?_).goes hgoes⟩,
      fun o' ho => ?_,fun o' ho => ?_,hgoes⟩
    · simp only [List.mem_append,List.mem_cons] at ht ⊢
      tauto
    · cases ho
      exact hw
    · cases ho
      exact hq
  | @drift s s' v v' ts hd =>
    obtain ⟨hinv,hgoes⟩ := hc.drift s v s' v' h.inv hd
    exact ⟨⟨hinv,fun t ht => (h.tasks t ht).goes hgoes⟩,nofun,nofun,hgoes⟩

theorem Carries.run (h₀ : T.Kept C c₀) (h : Run S ok c₀ c) : T.Kept C c :=
  h.invariant h₀ fun _ _ _ hc' hs ha => (hc.step hc' hs ha).1

theorem Carries.goes (h₀ : T.Kept C c₀) (h : Run S ok c₀ c) : T.goes c₀.state c.state := by
  induction h with
  | refl => exact T.refl _
  | step h hs ha ih => exact T.trans ih (hc.step (hc.run h₀ h) hs ha).2.goes

end Going
end Coop
