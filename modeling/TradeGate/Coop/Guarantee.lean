import TradeGate.Coop.Scheduler

/-! Rely and guarantee.  Every operation owes its writes and requests, and relies on what the
other tasks and the surroundings do while it is suspended; if each step is as relied upon by the
tasks it passes over, every task keeps its guarantee in every reachable configuration. -/
namespace Coop

variable {σ ω Λ Q O : Type} {R : Q → Type} {ε : Type}

/-- What an operation owes, and what it relies on while its request is outstanding and while it
holds an answer that is not delivered yet. -/
structure Guarantee (σ ω Λ Q : Type) (R : Q → Type) where
  may : σ → ω → Q → Prop
  write : σ → ω → Λ → σ → Prop
  serve : σ → ω → (q : Q) → R q → ω → Prop
  waits : Q → σ×ω → σ×ω → Prop
  holds : (q : Q) → R q → σ×ω → σ×ω → Prop

namespace Guarantee

section
variable (send : ω → Q → ω) (I : σ → ω → Prop) (G : Guarantee σ ω Λ Q R)

/-- The contract of one operation: an await comes back from a request on its way, its service
and its delivery, and the invariant holds where the operation is suspended and where it goes on. -/
def contract : Contract σ ω Λ Q R where
  may := G.may
  write := G.write
  back s w q r s' w' := I s (send w q) ∧ (∃ s₁ w₁ w₂,
    Relation.ReflTransGen (G.waits q) (s,send w q) (s₁,w₁) ∧ G.serve s₁ w₁ q r w₂ ∧
      Relation.ReflTransGen (G.holds q r) (s₁,w₂) (s',w')) ∧ I s' w'

/-- The program keeps the guarantee from here on. -/
def Meets (p : Prog σ Λ Q R ε Unit) (s : σ) (w : ω) : Prop :=
  (G.contract send I).Meets p (fun _ _ _ => True) s w

/-- The suspended program keeps the guarantee whenever it goes on. -/
def Keeps : Susp σ Λ Q R ε → σ → ω → Prop
  | .waiting q k, s, w => ∀ r s₁ w₁ w₂ s' w', Relation.ReflTransGen (G.waits q) (s,w) (s₁,w₁) →
    G.serve s₁ w₁ q r w₂ → Relation.ReflTransGen (G.holds q r) (s₁,w₂) (s',w') → I s' w' →
      G.Meets send I (k r) s' w'
  | .served q r k, s, w => ∀ s' w', Relation.ReflTransGen (G.holds q r) (s,w) (s',w') → I s' w' →
    G.Meets send I (k r) s' w'

/-- What the suspended program relies on. -/
def Relies : Susp σ Λ Q R ε → σ×ω → σ×ω → Prop
  | .waiting q _ => G.waits q
  | .served q r _ => G.holds q r

end

variable {send : ω → Q → ω} {I : σ → ω → Prop} {G : Guarantee σ ω Λ Q R} {s s' : σ} {w w' : ω}

theorem Keeps.serve {q : Q} {r : R q} {k : R q → Prog σ Λ Q R ε Unit}
    (h : G.Keeps send I (.waiting q k) s w) (hs : G.serve s w q r w') :
    G.Keeps send I (.served q r k) s w' :=
  fun s₂ w₂ hr => h r s w w' s₂ w₂ .refl hs hr

theorem Keeps.rely {x : Susp σ Λ Q R ε} (h : G.Keeps send I x s w)
    (hr : G.Relies x (s,w) (s',w')) : G.Keeps send I x s' w' := by
  cases x with
  | waiting q k => exact fun r s₁ w₁ w₂ s₂ w₃ h₁ h₂ h₃ => h r s₁ w₁ w₂ s₂ w₃ (.head hr h₁) h₂ h₃
  | served q r k => exact fun s₂ w₂ h₁ => h s₂ w₂ (.head hr h₁)

/-- A burst of a program that meets the guarantee writes and asks as owed, and suspends keeping
it. -/
theorem Meets.burst {p : Prog σ Λ Q R ε Unit} (h : G.Meets send I p s w) :
    (∀ x ∈ (p.burst s).writes, G.write x.pre w x.label x.post) ∧
      (∀ q ∈ (p.burst s).sent, G.may (p.burst s).state w q) ∧
      ∀ x ∈ (p.burst s).rest, I (p.burst s).state (send w x.request) →
        G.Keeps send I x (p.burst s).state (send w x.request) := by
  induction p generalizing s with
  | done a => exact ⟨by simp [Prog.burst],by simp [Prog.burst,Burst.sent],by simp [Prog.burst]⟩
  | fail e => exact ⟨by simp [Prog.burst],by simp [Prog.burst,Burst.sent],by simp [Prog.burst]⟩
  | get k ih => exact ih s h
  | put l s₁ p ih =>
    obtain ⟨h₁,h₂⟩ := ih h.2
    exact ⟨List.forall_mem_cons.mpr ⟨h.1,h₁⟩,h₂⟩
  | await q k ih =>
    refine ⟨by simp [Prog.burst],fun q' hq => ?_,fun x hx hI => ?_⟩
    · cases hq
      exact h.1
    · cases hx
      exact fun r s₁ w₁ w₂ s' w' h₁ h₂ h₃ h₄ => h.2 r s' w' ⟨hI,⟨s₁,w₁,w₂,h₁,h₂,h₃⟩,h₄⟩

/-- The program's writes and requests in one step are as its operation owes them. -/
structure Owed (G : O → Guarantee σ ω Λ Q R) (c : Config σ ω Λ Q R ε O) (a : Action σ Λ Q R ε O)
    (c' : Config σ ω Λ Q R ε O) : Prop where
  writes : ∀ o ∈ a.op, ∀ x ∈ a.writes, (G o).write x.pre c.world x.label x.post
  sent : ∀ o ∈ a.op, ∀ q ∈ a.sent, (G o).may c'.state c.world q

section
variable {G : O → Guarantee σ ω Λ Q R} {S : System σ ω Λ Q R ε O}
  {ok : Config σ ω Λ Q R ε O → Action σ Λ Q R ε O → Config σ ω Λ Q R ε O → Prop}
  {I : σ → ω → Prop} {c c' : Config σ ω Λ Q R ε O} {a : Action σ Λ Q R ε O}

/-- Every task of a configuration keeps its guarantee, and the state invariant holds. -/
structure Holds (G : O → Guarantee σ ω Λ Q R) (S : System σ ω Λ Q R ε O) (I : σ → ω → Prop)
    (c : Config σ ω Λ Q R ε O) : Prop where
  inv : I c.state c.world
  tasks : ∀ t ∈ c.tasks, (G t.op).Keeps S.send I t.susp c.state c.world

/-- What has to be shown for a system: programs start by meeting their guarantee, requests are
served as relied upon, the invariant is kept, and a step is as relied upon by every task it passes
over. -/
structure Governs (G : O → Guarantee σ ω Λ Q R) (I : σ → ω → Prop) (S : System σ ω Λ Q R ε O)
    (ok : Config σ ω Λ Q R ε O → Action σ Λ Q R ε O → Config σ ω Λ Q R ε O → Prop) : Prop where
  start : ∀ o s w ts c', I s w → ok ⟨s,w,ts⟩ (((S.program o).burst s).action o ts) c' →
    (G o).Meets S.send I (S.program o) s w
  serve : ∀ s w pre post o q k r w', I s w → S.serve s w q r w' →
    ok ⟨s,w,pre++⟨o,.waiting q k⟩::post⟩ (.outside (pre++post))
      ⟨s,w',pre++⟨o,.served q r k⟩::post⟩ → (G o).serve s w q r w'
  inv : ∀ c a c', I c.state c.world → Step S c a c' → ok c a c' → Owed G c a c' →
    I c'.state c'.world
  others : ∀ c a c', I c.state c.world → Step S c a c' → ok c a c' → Owed G c a c' →
    ∀ t ∈ a.others, (G t.op).Relies t.susp (c.state,c.world) (c'.state,c'.world) ∨
      (G t.op).Keeps S.send I t.susp c'.state c'.world

/-- A step of a configuration that holds is as owed. -/
theorem Holds.owed (hg : Governs G I S ok) (h : Holds G S I c) (hs : Step S c a c')
    (ha : ok c a c') : Owed G c a c' := by
  cases hs with
  | start o =>
    have hb := (hg.start o _ _ _ _ h.inv ha).burst
    refine ⟨fun o' ho => ?_,fun o' ho => ?_⟩ <;> cases ho
    · exact hb.1
    · exact hb.2.1
  | serve _ => exact ⟨fun _ ho => (by cases ho),fun _ ho => (by cases ho)⟩
  | resume =>
    have hk := h.tasks _ (List.mem_append_right _ List.mem_cons_self)
    have hb := (hk _ _ .refl h.inv).burst
    refine ⟨fun o' ho => ?_,fun o' ho => ?_⟩ <;> cases ho
    · exact hb.1
    · exact hb.2.1
  | drift _ => exact ⟨fun _ ho => (by cases ho),fun _ ho => (by cases ho)⟩

/-- The task a burst leaves behind keeps its guarantee in the world its request went out to. -/
theorem Meets.task {p : Prog σ Λ Q R ε Unit} {o : O} {s : σ} {w : ω}
    (h : (G o).Meets S.send I p s w)
    (hI : I (p.burst s).state (S.after w (p.burst s).sent)) : ∀ t ∈ (p.burst s).task o,
      (G t.op).Keeps S.send I t.susp (p.burst s).state (S.after w (p.burst s).sent) := by
  intro t ht
  obtain ⟨x,hx,rfl⟩ := Option.map_eq_some_iff.mp (Option.mem_toList.mp ht)
  have hx' : (p.burst s).sent=some x.request := by rw [Burst.sent,hx,Option.map_some]
  rw [hx'] at hI ⊢
  exact h.burst.2.2 x hx hI

theorem Holds.step (hg : Governs G I S ok) (h : Holds G S I c) (hs : Step S c a c')
    (ha : ok c a c') : Holds G S I c' := by
  have hw := h.owed hg hs ha
  have hinv := hg.inv _ _ _ h.inv hs ha hw
  have hothers : (∀ t ∈ a.others, t ∈ c.tasks) →
      ∀ t ∈ a.others, (G t.op).Keeps S.send I t.susp c'.state c'.world := fun hsub t ht =>
    (hg.others _ _ _ h.inv hs ha hw t ht).elim (h.tasks t (hsub t ht)).rely id
  refine ⟨hinv,?_⟩
  cases hs with
  | start o =>
    intro t ht
    rcases List.mem_append.mp ht with ht|ht
    · exact hothers (fun _ h => h) t ht
    · exact (hg.start o _ _ _ _ h.inv ha).task hinv t ht
  | @serve s w w' pre post o q k r hserve =>
    have hsub : ∀ t ∈ pre++post, t ∈ pre++⟨o,.waiting q k⟩::post := fun u hu => by
      simp only [List.mem_append,List.mem_cons] at hu ⊢
      tauto
    intro t ht
    rcases List.mem_append.mp ht with ht|ht
    · exact hothers hsub t (List.mem_append_left _ ht)
    · rcases List.mem_cons.mp ht with rfl|ht
      · exact (h.tasks ⟨o,.waiting q k⟩ (by simp)).serve
          (hg.serve _ _ _ _ _ _ _ _ _ h.inv hserve ha)
      · exact hothers hsub t (List.mem_append_right _ ht)
  | @resume s w pre post o q r k =>
    have hsub : ∀ t ∈ pre++post, t ∈ pre++⟨o,.served q r k⟩::post := fun u hu => by
      simp only [List.mem_append,List.mem_cons] at hu ⊢
      tauto
    intro t ht
    rw [List.append_assoc,List.mem_append] at ht
    rcases ht with ht|ht
    · exact hothers hsub t (List.mem_append_left _ ht)
    · rcases List.mem_append.mp ht with ht|ht
      · have hk := h.tasks ⟨o,.served q r k⟩ (by simp)
        exact Meets.task (hk _ _ .refl h.inv) hinv t ht
      · exact hothers hsub t (List.mem_append_right _ ht)
  | drift hd => exact hothers fun _ h => h

/-- In every configuration of a run whose steps are as relied upon, the invariant and every
task's guarantee hold. -/
theorem Governs.run (hg : Governs G I S ok) {c₀ : Config σ ω Λ Q R ε O} (h₀ : Holds G S I c₀)
    (h : Run S ok c₀ c) : Holds G S I c :=
  h.invariant h₀ fun _ _ _ hc hs ha => hc.step hg hs ha

end
end Guarantee
end Coop
