import Mathlib.Data.List.Basic
import Mathlib.Data.List.Chain
import Mathlib.Data.List.Perm.Subperm
import Mathlib.Data.List.Range

/-! Machines that take one event at a time: runs, conditions along a run, and the invariant rule. -/
namespace Machine

variable {σ ε : Type} (step : σ → ε → σ)

/-- The state after the events. -/
def run (s : σ) (es : List ε) : σ := es.foldl step s

/-- A condition on each event and the state it meets, all along a run. -/
def Throughout (P : σ → ε → Prop) : σ → List ε → Prop
  | _, [] => True
  | s, e::es => P s e ∧ Throughout P (step s e) es

@[simp] theorem run_nil (s : σ) : run step s []=s := rfl

theorem run_cons (s : σ) (e : ε) (es : List ε) : run step s (e::es)=run step (step s e) es := rfl

variable {step} {P : σ → ε → Prop}

/-- What holds at the start and is kept by every event under the condition holds at the end. -/
theorem run_invariant {I : σ → Prop} (keep : ∀ s e, I s → P s e → I (step s e)) {s : σ}
    {es : List ε} (h : I s) (hP : Throughout step P s es) : I (run step s es) := by
  induction es generalizing s with
  | nil => exact h
  | cons e es ih => exact ih (keep s e h hP.1) hP.2

/-- What an invariant gives of each event under the condition is so all along the run. -/
theorem throughout_of_invariant {I : σ → Prop} {Q : σ → ε → Prop}
    (keep : ∀ s e, I s → P s e → I (step s e)) (use : ∀ s e, I s → P s e → Q s e) {s : σ}
    {es : List ε} (h : I s) (hP : Throughout step P s es) : Throughout step Q s es := by
  induction es generalizing s with
  | nil => trivial
  | cons e es ih => exact ⟨use s e h hP.1,ih (keep s e h hP.1) hP.2⟩

theorem Throughout.mono {Q : σ → ε → Prop} (h : ∀ s e, P s e → Q s e) {s : σ} {es : List ε}
    (hP : Throughout step P s es) : Throughout step Q s es := by
  induction es generalizing s with
  | nil => trivial
  | cons e es ih => exact ⟨h s e hP.1,ih hP.2⟩

/-- A condition on the events alone. -/
theorem throughout_of_forall {P : ε → Prop} {s : σ} {es : List ε} (h : ∀ e ∈ es, P e) :
    Throughout step (fun _ e => P e) s es := by
  induction es generalizing s with
  | nil => trivial
  | cons e es ih =>
    obtain ⟨he,hes⟩ := List.forall_mem_cons.mp h
    exact ⟨he,ih hes⟩

def decideThroughout (step : σ → ε → σ) (P : σ → ε → Prop) [∀ s e, Decidable (P s e)] :
    (es : List ε) → (s : σ) → Decidable (Throughout step P s es)
  | [], _ => .isTrue trivial
  | e::es, s => @instDecidableAnd _ _ _ (decideThroughout step P es (step s e))

instance (step : σ → ε → σ) (P : σ → ε → Prop) [∀ s e, Decidable (P s e)] (s : σ) (es : List ε) :
    Decidable (Throughout step P s es) := decideThroughout step P es s

end Machine

/-! Computations that end with a value or throw. -/
namespace Machine

variable {ε δ α β γ : Type}

theorem bind_ok {x : Except ε α} {f : α → Except ε β} {b : β} :
    x >>= f=.ok b ↔ ∃ a, x=.ok a ∧ f a=.ok b := by
  cases x with
  | error e => simp [bind,Except.bind]
  | ok a => simp [bind,Except.bind]

/-- What every step keeps holds where the fold ends. -/
theorem foldlM_invariant {I : β → Prop} {f : β → α → Except ε β} {xs : List α} {b c : β}
    (h : xs.foldlM f b=.ok c) (hb : I b) (keep : ∀ x ∈ xs, ∀ b c, I b → f b x=.ok c → I c) : I c := by
  induction xs generalizing b with
  | nil =>
    cases h
    exact hb
  | cons x xs ih =>
    rw [List.foldlM_cons] at h
    obtain ⟨d,hd,h⟩ := bind_ok.mp h
    exact ih h (keep x List.mem_cons_self b d hb hd)
      fun y hy => keep y (List.mem_cons_of_mem _ hy)

/-- A fold whose steps never throw ends. -/
theorem foldlM_total {I : β → Prop} {f : β → α → Except ε β} {xs : List α} {b : β} (hb : I b)
    (go : ∀ x ∈ xs, ∀ b, I b → ∃ c, f b x=.ok c ∧ I c) : ∃ c, xs.foldlM f b=.ok c ∧ I c := by
  induction xs generalizing b with
  | nil => exact ⟨b,rfl,hb⟩
  | cons x xs ih =>
    obtain ⟨d,hd,hI⟩ := go x List.mem_cons_self b hb
    obtain ⟨c,hc,hIc⟩ := ih hI fun y hy => go y (List.mem_cons_of_mem _ hy)
    refine ⟨c,?_,hIc⟩
    rw [List.foldlM_cons]
    exact bind_ok.mpr ⟨d,hd,hc⟩

/-- A fold that ends has taken each of its steps. -/
theorem foldlM_mem {f : β → α → Except ε β} {xs : List α} {b c : β} {x : α} (h : xs.foldlM f b=.ok c)
    (hx : x ∈ xs) : ∃ ys ⊆ xs, ∃ d e, f d x=.ok e ∧ ys.foldlM f e=.ok c := by
  obtain ⟨before,after,rfl⟩ := List.append_of_mem hx
  rw [List.foldlM_append] at h
  obtain ⟨d,-,h⟩ := bind_ok.mp h
  rw [List.foldlM_cons] at h
  obtain ⟨e,he,h⟩ := bind_ok.mp h
  exact ⟨after,fun y hy => List.mem_append_right _ (List.mem_cons_of_mem _ hy),d,e,he,h⟩

/-- Two folds over one list go side by side. -/
theorem foldlM_lockstep {R : β → γ → Prop} {f : β → α → Except ε β} {g : γ → α → Except δ γ}
    {xs : List α} {b c : β} {b' : γ} (h : xs.foldlM f b=.ok c) (hR : R b b')
    (go : ∀ x ∈ xs, ∀ b b' c, R b b' → f b x=.ok c → ∃ c', g b' x=.ok c' ∧ R c c') :
    ∃ c', xs.foldlM g b'=.ok c' ∧ R c c' := by
  induction xs generalizing b b' with
  | nil =>
    cases h
    exact ⟨b',rfl,hR⟩
  | cons x xs ih =>
    rw [List.foldlM_cons] at h
    obtain ⟨d,hd,h⟩ := bind_ok.mp h
    obtain ⟨d',hd',hR'⟩ := go x List.mem_cons_self b b' d hR hd
    obtain ⟨c',hc',hRc⟩ := ih h hR' fun y hy => go y (List.mem_cons_of_mem _ hy)
    refine ⟨c',?_,hRc⟩
    rw [List.foldlM_cons]
    exact bind_ok.mpr ⟨d',hd',hc'⟩

end Machine

/-! Relations whose steps raise a rank: their paths repeat nothing and are bounded. -/
namespace Machine

variable {α : Type} {r : α → α → Prop} {rank : α → ℕ} {path : List α}

theorem pairwise_rank (h : ∀ a b, r a b → rank a<rank b) (hpath : path.IsChain r) :
    path.Pairwise fun a b => rank a<rank b := by
  have : IsTrans α fun a b => rank a<rank b := ⟨fun _ _ _ => lt_trans⟩
  exact List.isChain_iff_pairwise.mp (hpath.imp h)

theorem nodup_of_ranked (h : ∀ a b, r a b → rank a<rank b) (hpath : path.IsChain r) : path.Nodup := by
  refine (pairwise_rank h hpath).imp ?_
  rintro a b hlt rfl
  exact lt_irrefl _ hlt

theorem length_le_of_ranked {bound : ℕ} (h : ∀ a b, r a b → rank a<rank b) (hbound : ∀ a, rank a ≤ bound)
    (hpath : path.IsChain r) : path.length ≤ bound+1 := by
  have hranks : (path.map rank).Nodup := by
    refine List.pairwise_map.mpr ((pairwise_rank h hpath).imp ?_)
    exact fun hlt => hlt.ne
  have hsub : path.map rank ⊆ List.range (bound+1) := by
    intro n hn
    obtain ⟨a,-,rfl⟩ := List.mem_map.mp hn
    exact List.mem_range.mpr (Nat.lt_succ_of_le (hbound a))
  simpa using (List.subperm_of_subset hranks hsub).length_le

/-- A path that goes on has no state without a way on before its end. -/
theorem no_dead_end {a : α} (hdead : ∀ b, ¬r a b) (hpath : path.IsChain r) (ha : a ∈ path) : path.getLast?=some a := by
  induction path with
  | nil => cases ha
  | cons b path ih =>
    cases path with
    | nil => rw [List.mem_singleton.mp ha]; rfl
    | cons c path =>
      obtain ⟨hstep,hrest⟩ := List.isChain_cons_cons.mp hpath
      rw [List.getLast?_cons_cons]
      rcases List.mem_cons.mp ha with rfl | ha
      · exact absurd hstep (hdead c)
      · exact ih hrest ha

end Machine
