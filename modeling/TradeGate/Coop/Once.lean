import TradeGate.Coop.Contract
import TradeGate.Coop.Scheduler

/-! A right that is used once.  While it is live any operation may take it, by a write that ends it;
from then on only the operation that took it may send the request the right is for, and only once. -/
namespace Coop

/-- One element of a list has the first property, and all others have the second. -/
inductive Lone {α : Type} (P N : α → Prop) : List α → Prop
  | here {x : α} {xs : List α} (hx : P x) (h : ∀ y ∈ xs, N y) : Lone P N (x::xs)
  | there {x : α} {xs : List α} (hx : N x) (h : Lone P N xs) : Lone P N (x::xs)

section
variable {α : Type} {P N : α → Prop} {x : α} {xs ys : List α}

theorem lone_cons : Lone P N (x::xs) ↔ (P x ∧ ∀ y ∈ xs, N y) ∨ (N x ∧ Lone P N xs) := by
  constructor
  · rintro (⟨hx,h⟩|⟨hx,h⟩)
    · exact .inl ⟨hx,h⟩
    · exact .inr ⟨hx,h⟩
  · rintro (⟨hx,h⟩|⟨hx,h⟩)
    · exact .here hx h
    · exact .there hx h

theorem lone_append : Lone P N (xs++ys) ↔
    (Lone P N xs ∧ ∀ y ∈ ys, N y) ∨ ((∀ y ∈ xs, N y) ∧ Lone P N ys) := by
  induction xs with
  | nil =>
    constructor
    · exact fun h => .inr ⟨by simp,h⟩
    · rintro (⟨h,-⟩|⟨-,h⟩)
      · cases h
      · exact h
  | cons x xs ih =>
    simp only [List.cons_append,lone_cons,ih,List.mem_append,List.forall_mem_cons,or_imp,
      forall_and]
    tauto

theorem Lone.mono {P' N' : α → Prop} (h : Lone P N xs) (hP : ∀ x, P x → P' x) (hN : ∀ x, N x → N' x) :
    Lone P' N' xs := by
  induction h with
  | here hx h => exact .here (hP _ hx) fun y hy => hN y (h y hy)
  | there hx _ ih => exact .there (hN _ hx) ih

/-- The element in the middle is the one, or one of the others. -/
theorem lone_middle : Lone P N (xs++x::ys) ↔
    (P x ∧ ∀ y ∈ xs++ys, N y) ∨ (N x ∧ Lone P N (xs++ys)) := by
  simp only [lone_append,lone_cons,List.forall_mem_cons,List.mem_append,or_imp,forall_and]
  tauto

end

/-- How an operation stands to the right: nobody took it yet, the operation did, or it is out of the
operation's reach. -/
inductive Stand | free | mine | gone
deriving DecidableEq

/-- A right: what always holds of the state and how the state goes on, where the right is still
live, what a request has to be, and the request the right is for. -/
structure Right (σ Q : Type) where
  inv : σ → Prop
  goes : σ → σ → Prop
  live : σ → Prop
  fits : σ → Q → Prop
  prize : σ → Q → Prop
  refl : ∀ s, goes s s
  trans : ∀ {s s' s''}, goes s s' → goes s' s'' → goes s s''
  dead : ∀ {s s'}, goes s s' → ¬live s → ¬live s'

namespace Right

variable {σ ω Λ Q O : Type} {R : Q → Type} {ε : Type} (T : Right σ Q)

def Stands : Stand → σ → Prop
  | .free, s => T.live s
  | .mine, s => ¬T.live s
  | .gone, s => ¬T.live s

/-- The operation took the right, in an earlier burst or in this one. -/
def Holder (s : σ) (w : Stand) : Prop := w=.mine ∨ w=.free ∧ ¬T.live s

/-- How an operation stands when it goes on after a request. -/
inductive After (s : σ) (w : Stand) (q : Q) (s' : σ) : Stand → Prop
  | keeps (h : T.Holder s w) (hq : ¬T.prize s q) (hs : ¬T.live s') : After s w q s' .mine
  | uses (h : T.Holder s w) (hq : T.prize s q) (hs : ¬T.live s') : After s w q s' .gone
  | waits (h : ¬T.Holder s w) (hs : T.live s') : After s w q s' .free
  | loses (h : ¬T.Holder s w) (hs : ¬T.live s') : After s w q s' .gone

/-- The state goes on with every write, and only the holder of the right uses it. -/
def contract : Contract σ Stand Λ Q R where
  may s w q := T.inv s ∧ T.fits s q ∧ (T.prize s q → T.Holder s w)
  write s _ _ s' := T.goes s s'
  back s w q _ s' w' := T.inv s' ∧ T.goes s s' ∧ T.After s w q s' w'
  quit s _ := T.inv s

def Meets (p : Prog σ Λ Q R ε Unit) (s : σ) (w : Stand) : Prop :=
  (contract T : Contract σ Stand Λ Q R).Meets p (fun _ s _ => T.inv s) s w

/-- The program suspended in the state meets the contract wherever it goes on standing so. -/
def Ready (w : Stand) : Susp σ Λ Q R ε → σ → Prop
  | .waiting _ k, s => ∀ r s', T.inv s' → T.goes s s' → T.Stands w s' → T.Meets (k r) s' w
  | .served _ r k, s => ∀ s', T.inv s' → T.goes s s' → T.Stands w s' → T.Meets (k r) s' w

/-- Everything a system has to guarantee about the right. -/
structure Respected (S : System σ ω Λ Q R ε O)
    (ok : Config σ ω Λ Q R ε O → Action σ Λ Q R ε O → Config σ ω Λ Q R ε O → Prop) : Prop where
  start : ∀ o s w ts c' v, T.inv s → T.Stands v s → v ≠ .mine →
    ok ⟨s,w,ts⟩ (((S.program o).burst s).action o ts) c' → T.Meets (S.program o) s v
  drift : ∀ s w s' w', T.inv s → S.drift s w s' w' → T.inv s' ∧ T.goes s s'

/-- What is known of tasks beside an operation that stands so. -/
def Others (s : σ) : Stand → List (Task σ Λ Q R ε O) → Prop
  | .free, ts => ∀ t ∈ ts, T.Ready .free t.susp s ∧ T.Ready .gone t.susp s
  | .mine, ts => ∀ t ∈ ts, T.Ready .gone t.susp s
  | .gone, ts => (∀ t ∈ ts, T.Ready .gone t.susp s) ∨
    Lone (fun t => T.Ready .mine t.susp s) (fun t => T.Ready .gone t.susp s) ts

/-- At most one task holds the right, and none while it is live. -/
structure Ordered (c : Config σ ω Λ Q R ε O) : Prop where
  inv : T.inv c.state
  tasks : ∃ w, T.Stands w c.state ∧ w ≠ .mine ∧ T.Others c.state w c.tasks

/-- The right was used, or nobody is left to use it. -/
structure Over (c : Config σ ω Λ Q R ε O) : Prop where
  inv : T.inv c.state
  dead : ¬T.live c.state
  tasks : ∀ t ∈ c.tasks, T.Ready .gone t.susp c.state

variable {T} {s s' : σ} {w w' : Stand} {S : System σ ω Λ Q R ε O}
  {ok : Config σ ω Λ Q R ε O → Action σ Λ Q R ε O → Config σ ω Λ Q R ε O → Prop}
  {c c' c₀ c₁ c₂ : Config σ ω Λ Q R ε O} {a a' : Action σ Λ Q R ε O}

theorem Over.ordered (h : T.Over c) : T.Ordered c := ⟨h.inv,.gone,h.dead,by nofun,.inl h.tasks⟩

theorem Ready.goes {x : Susp σ Λ Q R ε} (h : T.Ready w x s) (hs : T.goes s s') : T.Ready w x s' := by
  cases x with
  | waiting q k => exact fun r s₁ hi hg => h r s₁ hi (T.trans hs hg)
  | served q r k => exact fun s₁ hi hg => h s₁ hi (T.trans hs hg)

theorem Others.goes {ts : List (Task σ Λ Q R ε O)} (h : T.Others s w ts) (hs : T.goes s s') :
    T.Others s' w ts := by
  cases w with
  | free => exact fun t ht => ⟨(h t ht).1.goes hs,(h t ht).2.goes hs⟩
  | mine => exact fun t ht => (h t ht).goes hs
  | gone =>
    exact h.imp (fun h t ht => (h t ht).goes hs) fun h =>
      h.mono (fun _ ht => ht.goes hs) fun _ ht => ht.goes hs

/-- A burst goes on with the state, and leaves a task that is ready to go on as it stands after its
request. -/
theorem Meets.burst {p : Prog σ Λ Q R ε Unit} (h : T.Meets p s w) :
    T.inv (p.burst s).state ∧ T.goes s (p.burst s).state ∧
      ∀ x ∈ (p.burst s).rest, T.fits (p.burst s).state x.request ∧
        (T.prize (p.burst s).state x.request → T.Holder (p.burst s).state w) ∧
        ∀ w', (∀ s', T.Stands w' s' → T.After (p.burst s).state w x.request s' w') →
          T.Ready w' x (p.burst s).state := by
  induction p generalizing s with
  | done a => exact ⟨h,T.refl _,by simp [Prog.burst]⟩
  | fail e => exact ⟨h,T.refl _,by simp [Prog.burst]⟩
  | get k ih => exact ih s h
  | put l s₁ p ih =>
    obtain ⟨h₁,h₂,h₃⟩ := ih h.2
    exact ⟨h₁,T.trans h.1 h₂,h₃⟩
  | await q k ih =>
    refine ⟨h.1.1,T.refl _,fun x hx => ?_⟩
    cases hx
    exact ⟨h.1.2.1,h.1.2.2,fun w' hw' r s' hi hg hs => h.2 r s' w' ⟨hi,hg,hw' s' hs⟩⟩

/-- Out of reach of the right, a burst leaves it so. -/
theorem Meets.gone {p : Prog σ Λ Q R ε Unit} (h : T.Meets p s .gone) :
    (∀ q ∈ (p.burst s).sent, ¬T.prize (p.burst s).state q) ∧
      ∀ x ∈ (p.burst s).rest, T.Ready .gone x (p.burst s).state := by
  obtain ⟨-,-,hrest⟩ := h.burst
  have hh : ¬T.Holder (p.burst s).state .gone := by
    rintro (h|⟨h,-⟩) <;> cases h
  refine ⟨fun q hq hp => ?_,fun x hx => (hrest x hx).2.2 .gone fun s' hs' => .loses hh hs'⟩
  obtain ⟨x,hx,rfl⟩ := Option.map_eq_some_iff.mp hq
  exact hh ((hrest x hx).2.1 hp)

/-- What the burst of an operation makes of the order. -/
theorem Meets.ordered {p : Prog σ Λ Q R ε Unit} {pre post : List (Task σ Λ Q R ε O)}
    (h : T.Meets p s w) (o : O) (hw : T.Stands w s) (hts : T.Others s w (pre++post)) (v : ω) :
    T.Ordered ⟨(p.burst s).state,v,pre++(p.burst s).task o++post⟩ ∧
      ∀ q ∈ (p.burst s).sent, T.prize (p.burst s).state q →
        T.Over ⟨(p.burst s).state,v,pre++(p.burst s).task o++post⟩ := by
  obtain ⟨hinv,hgoes,hrest⟩ := h.burst
  have hts := hts.goes hgoes
  by_cases hh : T.Holder (p.burst s).state w
  · -- the operation holds the right: it goes on to use it, or uses it with its request
    have hdead : ¬T.live (p.burst s).state := by
      rcases hh with rfl|⟨-,hn⟩
      · exact T.dead hgoes hw
      · exact hn
    have hgone : ∀ t ∈ pre++post, T.Ready .gone t.susp (p.burst s).state := by
      rcases hh with rfl|⟨rfl,-⟩
      · exact hts
      · exact fun t ht => (hts t ht).2
    have hover : (∀ x ∈ (p.burst s).rest, T.prize (p.burst s).state x.request) →
        T.Over ⟨(p.burst s).state,v,pre++(p.burst s).task o++post⟩ := fun hq =>
      ⟨hinv,hdead,Burst.forall_task (fun x hx => (hrest x hx).2.2 .gone fun s' hs' =>
        .uses hh (hq x hx) hs') hgone⟩
    refine ⟨?_,fun q hq hp => hover fun x hx => ?_⟩
    · cases hx : (p.burst s).rest with
      | none => exact (hover (by simp [hx])).ordered
      | some x =>
        by_cases hq : T.prize (p.burst s).state x.request
        · refine (hover fun y hy => ?_).ordered
          rw [hx,Option.mem_some_iff] at hy
          exact hy ▸ hq
        · refine ⟨hinv,.gone,hdead,by nofun,.inr ?_⟩
          rw [Burst.task,hx,Option.map_some,Option.toList_some,List.append_assoc,List.singleton_append]
          exact lone_middle.mpr (.inl ⟨(hrest x hx).2.2 .mine fun s' hs' => .keeps hh hq hs',hgone⟩)
    · rw [Burst.sent,hx,Option.map_some,Option.mem_some_iff] at hq
      exact hq ▸ hp
  · -- it does not: whatever it asks for, the right stays as it is
    refine ⟨?_,fun q hq hp => ?_⟩
    · cases w with
      | mine => exact absurd (.inl rfl) hh
      | free =>
        have hlive : T.live (p.burst s).state := by
          by_contra hn
          exact hh (.inr ⟨rfl,hn⟩)
        refine ⟨hinv,.free,hlive,by nofun,Burst.forall_task (fun x hx => ⟨?_,?_⟩) hts⟩
        · exact (hrest x hx).2.2 .free fun s' hs' => .waits hh hs'
        · exact (hrest x hx).2.2 .gone fun s' hs' => .loses hh hs'
      | gone =>
        refine ⟨hinv,.gone,T.dead hgoes hw,by nofun,hts.imp (Burst.forall_task h.gone.2) fun hts => ?_⟩
        cases hr : (p.burst s).rest with
        | none => simpa [Burst.task,hr] using hts
        | some x =>
          rw [Burst.task,hr,Option.map_some,Option.toList_some,List.append_assoc,List.singleton_append]
          exact lone_middle.mpr (.inr ⟨h.gone.2 x hr,hts⟩)
    · obtain ⟨x,hx,rfl⟩ := Option.map_eq_some_iff.mp hq
      exact absurd ((hrest x hx).2.1 hp) hh

/-- What is known of a suspended task and the others. -/
theorem Others.split {pre post : List (Task σ Λ Q R ε O)} {t : Task σ Λ Q R ε O}
    (hw : T.Stands w s) (hne : w ≠ .mine) (h : T.Others s w (pre++t::post)) :
    ∃ w, T.Stands w s ∧ T.Ready w t.susp s ∧ T.Others s w (pre++post) := by
  have hsub : ∀ {u : Task σ Λ Q R ε O}, u ∈ pre++post → u ∈ pre++t::post := fun {u} hu => by
    simp only [List.mem_append,List.mem_cons] at hu ⊢
    tauto
  cases w with
  | mine => exact absurd rfl hne
  | free => exact ⟨.free,hw,(h t (by simp)).1,fun u hu => h u (hsub hu)⟩
  | gone =>
    rcases h with h|h
    · exact ⟨.gone,hw,h t (by simp),.inl fun u hu => h u (hsub hu)⟩
    · rcases lone_middle.mp h with ⟨ht,h⟩|⟨ht,h⟩
      · exact ⟨.mine,hw,ht,h⟩
      · exact ⟨.gone,hw,ht,.inr h⟩

/-- The request of a task is served. -/
theorem Others.serve {pre post : List (Task σ Λ Q R ε O)} {o : O} {q : Q}
    {k : R q → Prog σ Λ Q R ε Unit} (r : R q)
    (h : T.Others s w (pre++⟨o,.waiting q k⟩::post)) :
    T.Others s w (pre++⟨o,.served q r k⟩::post) := by
  have hall : ∀ {P : Susp σ Λ Q R ε → Prop}, (P (.waiting q k) → P (.served q r k)) →
      (∀ t ∈ pre++⟨o,.waiting q k⟩::post, P t.susp) → ∀ t ∈ pre++⟨o,.served q r k⟩::post, P t.susp :=
    fun {P} hP h => by
      simp only [List.forall_mem_append,List.forall_mem_cons] at h ⊢
      exact ⟨h.1,hP h.2.1,h.2.2⟩
  cases w with
  | free => exact hall (P := fun x => T.Ready .free x s ∧ T.Ready .gone x s) (fun h => ⟨h.1 r,h.2 r⟩) h
  | mine => exact hall (P := fun x => T.Ready .gone x s) (fun h => h r) h
  | gone =>
    refine h.imp (hall (P := fun x => T.Ready .gone x s) fun h => h r) fun h => lone_middle.mpr ?_
    exact (lone_middle.mp h).imp (fun h => ⟨h.1 r,h.2⟩) fun h => ⟨h.1 r,h.2⟩

variable (hr : T.Respected S ok)
include hr

/-- A step goes on with the state and keeps the order; its request fits, and one that uses the right
ends it. -/
theorem Respected.step (h : T.Ordered c) (hs : Step S c a c') (ha : ok c a c') :
    T.Ordered c' ∧ T.goes c.state c'.state ∧
      ∀ q ∈ a.sent, T.fits c'.state q ∧ (T.prize c'.state q → T.Over c') := by
  obtain ⟨hinv,w,hw,hne,hts⟩ := h
  cases hs with
  | @start s v ts o =>
    have hm := hr.start o s v ts _ w hinv hw hne ha
    obtain ⟨-,hgoes,hrest⟩ := hm.burst
    have hts : T.Others s w (ts++[]) := by rwa [List.append_nil]
    obtain ⟨hord,hover⟩ := hm.ordered o hw hts (S.after v ((S.program o).burst s).sent)
    rw [List.append_nil] at hord hover
    refine ⟨hord,hgoes,fun q hq => ⟨?_,hover q hq⟩⟩
    obtain ⟨x,hx,rfl⟩ := Option.map_eq_some_iff.mp hq
    exact (hrest x hx).1
  | @serve s v v' pre post o q k r hserve =>
    exact ⟨⟨hinv,w,hw,hne,hts.serve r⟩,T.refl _,by nofun⟩
  | @resume s v pre post o q r k =>
    obtain ⟨w',hw',ht,hts'⟩ := hts.split hw hne
    have hm : T.Meets (k r) s w' := ht s hinv (T.refl s) hw'
    obtain ⟨-,hgoes,hrest⟩ := hm.burst
    obtain ⟨hord,hover⟩ := hm.ordered o hw' hts' (S.after v ((k r).burst s).sent)
    refine ⟨hord,hgoes,fun q hq => ⟨?_,hover q hq⟩⟩
    obtain ⟨x,hx,rfl⟩ := Option.map_eq_some_iff.mp hq
    exact (hrest x hx).1
  | @drift s s' v v' ts hd =>
    obtain ⟨hinv',hgoes⟩ := hr.drift s v s' v' hinv hd
    have hts := hts.goes hgoes
    refine ⟨?_,hgoes,by nofun⟩
    cases w with
    | mine => exact absurd rfl hne
    | free =>
      by_cases hl : T.live s'
      · exact ⟨hinv',.free,hl,by nofun,hts⟩
      · exact ⟨hinv',.gone,hl,by nofun,.inl fun t ht => (hts t ht).2⟩
    | gone => exact ⟨hinv',.gone,T.dead hgoes hw,by nofun,hts⟩

/-- Once it is over, nobody uses the right any more. -/
theorem Respected.over_step (h : T.Over c) (hs : Step S c a c') (ha : ok c a c') :
    T.Over c' ∧ ∀ q ∈ a.sent, ¬T.prize c'.state q := by
  cases hs with
  | @start s v ts o =>
    have hm := hr.start o s v ts _ .gone h.inv h.dead (by nofun) ha
    obtain ⟨hinv,hgoes,-⟩ := hm.burst
    obtain ⟨hno,hx⟩ := hm.gone
    exact ⟨⟨hinv,T.dead hgoes h.dead,Burst.forall_last hx fun t ht => (h.tasks t ht).goes hgoes⟩,hno⟩
  | @serve s v v' pre post o q k r hserve =>
    exact ⟨⟨h.inv,h.dead,Others.serve (w := .mine) r h.tasks⟩,by nofun⟩
  | @resume s v pre post o q r k =>
    have hm : T.Meets (k r) s .gone := h.tasks ⟨o,.served q r k⟩ (by simp) s h.inv (T.refl s) h.dead
    obtain ⟨hinv,hgoes,-⟩ := hm.burst
    obtain ⟨hno,hx⟩ := hm.gone
    refine ⟨⟨hinv,T.dead hgoes h.dead,Burst.forall_task hx fun t ht => (h.tasks t ?_).goes hgoes⟩,hno⟩
    simp only [List.mem_append,List.mem_cons] at ht ⊢
    tauto
  | @drift s s' v v' ts hd =>
    obtain ⟨hinv,hgoes⟩ := hr.drift s v s' v' h.inv hd
    exact ⟨⟨hinv,T.dead hgoes h.dead,fun t ht => (h.tasks t ht).goes hgoes⟩,by nofun⟩

theorem Respected.run (h₀ : T.Ordered c₀) (h : Run S ok c₀ c) :
    T.Ordered c ∧ T.goes c₀.state c.state := by
  induction h with
  | refl => exact ⟨h₀,T.refl _⟩
  | step _ hs ha ih =>
    obtain ⟨h₁,h₂,-⟩ := hr.step ih.1 hs ha
    exact ⟨h₁,T.trans ih.2 h₂⟩

/-- Of two steps of a run, at most one uses the right. -/
theorem Respected.once (h₀ : T.Ordered c₀) (h : Run S ok c₀ c) (hs : Step S c a c') (ha : ok c a c')
    (hq : ∃ q ∈ a.sent, T.prize c'.state q) (h' : Run S ok c' c₁) (hs' : Step S c₁ a' c₂)
    (ha' : ok c₁ a' c₂) : ∀ q ∈ a'.sent, ¬T.prize c₂.state q := by
  obtain ⟨q,hq,hp⟩ := hq
  have hover := h'.invariant (((hr.step (hr.run h₀ h).1 hs ha).2.2 q hq).2 hp)
    fun _ _ _ hc hs ha => (hr.over_step hc hs ha).1
  exact (hr.over_step hover hs' ha').2

end Right
end Coop
