import TradeGate.Coop.Going

/-! A system with further operations beside its own. -/
namespace Coop

variable {σ ω Λ Q O O' : Type} {R : Q → Type} {ε : Type}

/-- The system with further operations. -/
def System.adding (S : System σ ω Λ Q R ε O) (program : O' → Prog σ Λ Q R ε Unit) :
    System σ ω Λ Q R ε (O ⊕ O') where
  program := Sum.elim S.program program
  send := S.send
  serve := S.serve
  drift := S.drift

/-- The system with other operations in the place of its own. -/
def System.only (S : System σ ω Λ Q R ε O) (program : O' → Prog σ Λ Q R ε Unit) :
    System σ ω Λ Q R ε O' where
  program := program
  send := S.send
  serve := S.serve
  drift := S.drift

/-- A move among the further operations. -/
def Move.own : Move σ ω Q R O → Move σ ω Q R (O ⊕ O')
  | .start o => .start (.inl o)
  | .serve i answer world => .serve i answer world
  | .resume i => .resume i
  | .drift state world => .drift state world

namespace Going

variable {T : Going σ} {S : System σ ω Λ Q R ε O} {C : O → Contract σ ω Λ Q R}
  {program : O' → Prog σ Λ Q R ε Unit} {C' : O' → Contract σ ω Λ Q R}

/-- What the operations and the further operations guarantee, the larger system does. -/
theorem Carries.adding (h : T.Carries C S anyStep) (h' : T.Carries C' (S.only program) anyStep) :
    T.Carries (Sum.elim C C') (S.adding program) anyStep where
  start
    | .inl o, s, w, _, _, hi, _ => h.start o s w [] ⟨s,w,[]⟩ hi trivial
    | .inr o, s, w, _, _, hi, _ => h'.start o s w [] ⟨s,w,[]⟩ hi trivial
  write
    | .inl o => h.write o
    | .inr o => h'.write o
  may
    | .inl o => h.may o
    | .inr o => h'.may o
  quit
    | .inl o => h.quit o
    | .inr o => h'.quit o
  back
    | .inl o => h.back o
    | .inr o => h'.back o
  drift := h.drift

end Going
end Coop
