import TradeGate.Coop.Exec

/-! Contracts for programs.  A contract says which requests may be sent, which writes may be
made, and what an await can come back to; a program meets it when, on every path, its own steps
keep the contract as long as its surroundings do. -/
namespace Coop

/-- What a program owes at its requests, at its writes and where it fails, and what it may rely on
at its awaits. -/
structure Contract (σ ω Λ Q : Type) (R : Q → Type) where
  may : σ → ω → Q → Prop
  write : σ → ω → Λ → σ → Prop
  back : σ → ω → (q : Q) → R q → σ → ω → Prop
  quit : σ → ω → Prop := fun _ _ => True

variable {σ ω Λ Q : Type} {R : Q → Type} {ε α β : Type}

namespace Contract

variable (C : Contract σ ω Λ Q R)

/-- The program keeps the contract from the given state, and `P` holds where it ends. -/
def Meets : Prog σ Λ Q R ε α → (α → σ → ω → Prop) → σ → ω → Prop
  | .done a, P, s, w => P a s w
  | .fail _, _, s, w => C.quit s w
  | .get k, P, s, w => Meets (k s) P s w
  | .put l s' p, P, s, w => C.write s w l s' ∧ Meets p P s' w
  | .await q k, P, s, w => C.may s w q ∧ ∀ r s' w', C.back s w q r s' w' → Meets (k r) P s' w'

/-- An event the surroundings are responsible for. -/
def Allows : Event σ ω Λ Q R → Prop
  | .put _ _ _ _ => True
  | .call q r s w s' w' => C.back s w q r s' w'

/-- An event as the program owes it. -/
def Owes : Event σ ω Λ Q R → Prop
  | .put l s w s' => C.write s w l s'
  | .call q _ s w _ _ => C.may s w q

variable {C}

namespace Meets

variable {P P' : α → σ → ω → Prop} {s s' : σ} {w w' : ω}

@[simp] theorem done {a : α} : C.Meets (.done a : Prog σ Λ Q R ε α) P s w ↔ P a s w := Iff.rfl

@[simp] theorem fail {e : ε} :
    C.Meets (.fail e : Prog σ Λ Q R ε α) P s w ↔ C.quit s w := Iff.rfl

@[simp] theorem get {k : σ → Prog σ Λ Q R ε α} :
    C.Meets (.get k) P s w ↔ C.Meets (k s) P s w := Iff.rfl

@[simp] theorem put {l : Λ} {s₁ : σ} {p : Prog σ Λ Q R ε α} :
    C.Meets (.put l s₁ p) P s w ↔ C.write s w l s₁ ∧ C.Meets p P s₁ w := Iff.rfl

@[simp] theorem await {q : Q} {k : R q → Prog σ Λ Q R ε α} : C.Meets (.await q k) P s w ↔
    C.may s w q ∧ ∀ r s' w', C.back s w q r s' w' → C.Meets (k r) P s' w' := Iff.rfl

@[simp] theorem read_bind {k : σ → Prog σ Λ Q R ε α} :
    C.Meets (Prog.read >>= k) P s w ↔ C.Meets (k s) P s w := Iff.rfl

@[simp] theorem update {l : Λ} {f : σ → σ} {P : Unit → σ → ω → Prop} :
    C.Meets (Prog.update l f : Prog σ Λ Q R ε Unit) P s w ↔ C.write s w l (f s) ∧ P () (f s) w :=
  Iff.rfl

@[simp] theorem update_bind {l : Λ} {f : σ → σ} {k : Unit → Prog σ Λ Q R ε α} :
    C.Meets (Prog.update l f >>= k) P s w ↔ C.write s w l (f s) ∧ C.Meets (k ()) P (f s) w := Iff.rfl

@[simp] theorem request {q : Q} {P : R q → σ → ω → Prop} :
    C.Meets (Prog.request q : Prog σ Λ Q R ε (R q)) P s w ↔
      C.may s w q ∧ ∀ r s' w', C.back s w q r s' w' → P r s' w' := Iff.rfl

@[simp] theorem request_bind {q : Q} {k : R q → Prog σ Λ Q R ε α} :
    C.Meets (Prog.request q >>= k) P s w ↔
      C.may s w q ∧ ∀ r s' w', C.back s w q r s' w' → C.Meets (k r) P s' w' := Iff.rfl

/-- A program that keeps a contract keeps every contract that owes less and relies on more. -/
theorem weaken {C' : Contract σ ω Λ Q R} {p : Prog σ Λ Q R ε α} (h : C.Meets p P s w)
    (hmay : ∀ s w q, C.may s w q → C'.may s w q)
    (hwrite : ∀ s w l s', C.write s w l s' → C'.write s w l s')
    (hback : ∀ s w q r s' w', C'.back s w q r s' w' → C.back s w q r s' w')
    (hquit : ∀ s w, C.quit s w → C'.quit s w) : C'.Meets p P s w := by
  induction p generalizing s w with
  | done a => exact h
  | fail e => exact hquit s w h
  | get k ih => exact ih s h
  | put l s₁ p ih => exact ⟨hwrite _ _ _ _ h.1,ih h.2⟩
  | await q k ih =>
    exact ⟨hmay _ _ _ h.1,fun r s' w' hb => ih r (h.2 r s' w' (hback _ _ _ _ _ _ hb))⟩

theorem mono {p : Prog σ Λ Q R ε α} (h : C.Meets p P s w) (hP : ∀ a s w, P a s w → P' a s w) :
    C.Meets p P' s w := by
  induction p generalizing s w with
  | done a => exact hP a s w h
  | fail e => exact h
  | get k ih => exact ih s h
  | put l s₁ p ih => exact ⟨h.1,ih h.2⟩
  | await q k ih => exact ⟨h.1,fun r s' w' hb => ih r (h.2 r s' w' hb)⟩

theorem bind_iff {p : Prog σ Λ Q R ε α} {f : α → Prog σ Λ Q R ε β} {P : β → σ → ω → Prop} :
    C.Meets (p >>= f) P s w ↔ C.Meets p (fun a s w => C.Meets (f a) P s w) s w := by
  induction p generalizing s w with
  | done a => exact Iff.rfl
  | fail e => exact Iff.rfl
  | get k ih => exact ih s
  | put l s₁ p ih => exact and_congr Iff.rfl ih
  | await q k ih =>
    exact and_congr Iff.rfl <| forall_congr' fun r => forall_congr' fun s' =>
      forall_congr' fun w' => imp_congr_right fun _ => ih r

/-- Sequencing through an assertion at the seam. -/
theorem bind {p : Prog σ Λ Q R ε α} {f : α → Prog σ Λ Q R ε β} {P : β → σ → ω → Prop}
    {M : α → σ → ω → Prop} (hp : C.Meets p M s w)
    (hf : ∀ a s w, M a s w → C.Meets (f a) P s w) : C.Meets (p >>= f) P s w :=
  bind_iff.mpr (hp.mono hf)

theorem onlyIf {c : Prop} [Decidable c] {p : Prog σ Λ Q R ε Unit} {P : Unit → σ → ω → Prop}
    (hp : c → C.Meets p P s w) (hn : ¬c → P () s w) : C.Meets (Prog.onlyIf c p) P s w := by
  unfold Prog.onlyIf
  split
  · next h => exact hp h
  · next h => exact hn h

/-- A loop keeps the contract when every round does, with what the rounds still to come need. -/
theorem forM {f : β → Prog σ Λ Q R ε Unit} {bs : List β} {I : List β → σ → ω → Prop}
    (h : I bs s w) (hf : ∀ b bs s w, I (b::bs) s w → C.Meets (f b) (fun _ s w => I bs s w) s w) :
    C.Meets (bs.forM f) (fun _ s w => I [] s w) s w := by
  induction bs generalizing s w with
  | nil => exact h
  | cons b bs ih => exact bind (hf b bs s w h) fun _ s w h => ih h

/-- A program with an update at its end, however it ends. -/
theorem ensure {p : Prog σ Λ Q R ε α} {l : Λ} {f : σ → σ} (hp : C.Meets p P s w)
    (hP : ∀ a s w, P a s w → C.write s w l (f s) ∧ P' a (f s) w)
    (hq : ∀ s w, C.quit s w → C.write s w l (f s) ∧ C.quit (f s) w) :
    C.Meets (p.ensure l f) P' s w := by
  induction p generalizing s w with
  | done a => exact hP a s w hp
  | fail e => exact hq s w hp
  | get k ih => exact ih s hp
  | put l' s₁ p ih => exact ⟨hp.1,ih hp.2⟩
  | await q k ih => exact ⟨hp.1,fun r s' w' hb => ih r (hp.2 r s' w' hb)⟩

/-- A program whose error is caught. -/
theorem attempt {p : Prog σ Λ Q R ε α} {P : Except ε α → σ → ω → Prop}
    (hp : C.Meets p (fun a => P (.ok a)) s w) (hq : ∀ e s w, C.quit s w → P (.error e) s w) :
    C.Meets p.attempt P s w := by
  induction p generalizing s w with
  | done a => exact hp
  | fail e => exact hq e s w hp
  | get k ih => exact ih s hp
  | put l s₁ p ih => exact ⟨hp.1,ih hp.2⟩
  | await q k ih => exact ⟨hp.1,fun r s' w' hb => ih r (hp.2 r s' w' hb)⟩

/-- Along an execution whose awaits come back as relied upon, every event is as owed and the
end satisfies the postcondition. -/
theorem exec {p : Prog σ Λ Q R ε α} (hp : C.Meets p P s w) {tr : List (Event σ ω Λ Q R)}
    {x : Except ε α} (h : Exec p s w tr x s' w') (hb : ∀ e ∈ tr, C.Allows e) :
    (∀ e ∈ tr, C.Owes e) ∧ ∀ a, x=.ok a → P a s' w' := by
  induction h with
  | done => exact ⟨by simp,fun a ha => by cases ha; exact hp⟩
  | fail => exact ⟨by simp,fun a ha => by cases ha⟩
  | get _ ih => exact ih hp hb
  | put _ ih =>
    obtain ⟨h₁,h₂⟩ := ih hp.2 fun e he => hb e (List.mem_cons_of_mem _ he)
    exact ⟨List.forall_mem_cons.mpr ⟨hp.1,h₁⟩,h₂⟩
  | await _ ih =>
    obtain ⟨h₁,h₂⟩ := ih (hp.2 _ _ _ (hb _ List.mem_cons_self))
      fun e he => hb e (List.mem_cons_of_mem _ he)
    exact ⟨List.forall_mem_cons.mpr ⟨hp.1,h₁⟩,h₂⟩

end Meets
end Contract
end Coop

/-! Which labels the writes of a program bear and what it asks, whatever it reads and is answered. -/
namespace Coop

variable {σ ω Λ Q : Type} {R : Q → Type} {ε α β : Type} {L : Λ → Prop}

namespace Prog

/-- Every write of the program bears a label of the kind. -/
def Labels (L : Λ → Prop) : Prog σ Λ Q R ε α → Prop
  | .done _ => True
  | .fail _ => True
  | .get k => ∀ s, Labels L (k s)
  | .put l _ p => L l ∧ Labels L p
  | .await _ k => ∀ r, Labels L (k r)

namespace Labels

/-- Every program bears labels. -/
theorem any (p : Prog σ Λ Q R ε α) : p.Labels fun _ => True := by
  induction p with
  | done a => trivial
  | fail e => trivial
  | get k ih => exact ih
  | put l s p ih => exact ⟨trivial,ih⟩
  | await q k ih => exact ih

/-- A contract that minds writes only, and none of these labels. -/
theorem meets {C : Contract σ ω Λ Q R} (hw : ∀ s w l s', L l → C.write s w l s')
    (hm : ∀ s w q, C.may s w q) (hq : ∀ s w, C.quit s w) {p : Prog σ Λ Q R ε α} (h : p.Labels L)
    (s : σ) (w : ω) : C.Meets p (fun _ _ _ => True) s w := by
  induction p generalizing s w with
  | done a => trivial
  | fail e => exact hq s w
  | get k ih => exact ih s (h s) s w
  | put l s' p ih => exact ⟨hw _ _ _ _ h.1,ih h.2 _ _⟩
  | await q k ih => exact ⟨hm _ _ _,fun r s' w' _ => ih r (h r) s' w'⟩

end Labels

/-- Every write of the program bears a label of the one kind, and every request is of the other. -/
def Within (L : Λ → Prop) (A : Q → Prop) : Prog σ Λ Q R ε α → Prop
  | .done _ => True
  | .fail _ => True
  | .get k => ∀ s, Within L A (k s)
  | .put l _ p => L l ∧ Within L A p
  | .await q k => A q ∧ ∀ r, Within L A (k r)

namespace Within

variable {A : Q → Prop}

theorem done (a : α) : (.done a : Prog σ Λ Q R ε α).Within L A := trivial

theorem read {k : σ → Prog σ Λ Q R ε α} (h : ∀ s, (k s).Within L A) :
    (Prog.read >>= k).Within L A := h

theorem update {l : Λ} (hl : L l) (f : σ → σ) :
    (Prog.update l f : Prog σ Λ Q R ε Unit).Within L A := fun _ => ⟨hl,trivial⟩

theorem request {q : Q} (hq : A q) : (Prog.request q : Prog σ Λ Q R ε (R q)).Within L A :=
  ⟨hq,fun _ => trivial⟩

theorem bind {p : Prog σ Λ Q R ε α} {f : α → Prog σ Λ Q R ε β} (hp : p.Within L A)
    (hf : ∀ a, (f a).Within L A) : (p >>= f).Within L A := by
  induction p with
  | done a => exact hf a
  | fail e => trivial
  | get k ih => exact fun s => ih s (hp s)
  | put l s p ih => exact ⟨hp.1,ih hp.2⟩
  | await q k ih => exact ⟨hp.1,fun r => ih r (hp.2 r)⟩

theorem labels {p : Prog σ Λ Q R ε α} (h : p.Within L A) : p.Labels L := by
  induction p with
  | done a => trivial
  | fail e => trivial
  | get k ih => exact fun s => ih s (h s)
  | put l s p ih => exact ⟨h.1,ih h.2⟩
  | await q k ih => exact fun r => ih r (h.2 r)

end Within
end Prog

/-- The label of a write, or the request of a call, is of the kind. -/
def Event.Within (L : Λ → Prop) (A : Q → Prop) : Event σ ω Λ Q R → Prop
  | .put l _ _ _ => L l
  | .call q _ _ _ _ _ => A q

/-- The events of an execution are of the kinds of its program. -/
theorem Exec.within {A : Q → Prop} {p : Prog σ Λ Q R ε α} {s s' : σ} {w w' : ω}
    {tr : List (Event σ ω Λ Q R)} {x : Except ε α} (hp : p.Within L A) (h : Exec p s w tr x s' w') :
    ∀ e ∈ tr, e.Within L A := by
  induction h with
  | done => simp
  | fail => simp
  | get _ ih => exact ih (hp _)
  | put _ ih => exact List.forall_mem_cons.mpr ⟨hp.1,ih hp.2⟩
  | await _ ih => exact List.forall_mem_cons.mpr ⟨hp.1,ih (hp.2 _)⟩

end Coop
