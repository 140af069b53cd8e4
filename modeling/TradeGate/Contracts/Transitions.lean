import Mathlib.Logic.Relation
import TradeGate.Machine.Run
import TradeGate.Model.Contracts
import TradeGate.Model.Transitions

/-! Runs of the shared state machines end: no state comes twice, and only terminal states have no way on. -/
namespace TradeGate.Transitions
namespace TransitionTable

variable {t : TransitionTable} {a b c event : String} {n : ℕ}

/-- The longest way to a state, counted up to a number of steps. -/
def height (t : TransitionTable) : ℕ → String → ℕ
  | 0, _ => 0
  | n+1, s => ((t.transitions.filter fun x => x.target=s).map fun x => t.height n x.source+1).foldr max 0

theorem foldr_max_le {xs : List ℕ} (h : ∀ x ∈ xs, x ≤ n) : xs.foldr max 0 ≤ n := by
  induction xs with
  | nil => exact Nat.zero_le n
  | cons x xs ih =>
    obtain ⟨hx,hxs⟩ := List.forall_mem_cons.mp h
    exact max_le hx (ih hxs)

theorem height_le (n : ℕ) (s : String) : t.height n s ≤ n := by
  induction n generalizing s with
  | zero => exact le_refl 0
  | succ n ih =>
    apply foldr_max_le
    intro x hx
    obtain ⟨y,-,rfl⟩ := List.mem_map.mp hx
    exact Nat.succ_le_succ (ih y.source)

/-- What is checked of a table: each line goes between its states and up, no state and event come on two
lines, and the states without a line are the terminal ones. -/
structure Sound (t : TransitionTable) : Prop where
  states : ∀ x ∈ t.transitions, x.source ∈ t.states ∧ x.target ∈ t.states
  ranked : ∀ x ∈ t.transitions, t.height 6 x.source<t.height 6 x.target
  single : ∀ x ∈ t.transitions, ∀ y ∈ t.transitions, x.source=y.source → x.event=y.event → x=y
  terminal : ∀ s ∈ t.states, s ∈ t.terminal ↔ ∀ x ∈ t.transitions, x.source ≠ s
  entered : ∀ s ∈ t.states, s=t.initial ∨ ∃ x ∈ t.transitions, x.target=s

instance (t : TransitionTable) : Decidable t.Sound :=
  decidable_of_iff (((∀ x ∈ t.transitions, x.source ∈ t.states ∧ x.target ∈ t.states) ∧
    (∀ x ∈ t.transitions, t.height 6 x.source<t.height 6 x.target) ∧
    (∀ x ∈ t.transitions, ∀ y ∈ t.transitions, x.source=y.source → x.event=y.event → x=y)) ∧
    (∀ s ∈ t.states, s ∈ t.terminal ↔ ∀ x ∈ t.transitions, x.source ≠ s) ∧
    ∀ s ∈ t.states, s=t.initial ∨ ∃ x ∈ t.transitions, x.target=s)
    ⟨fun ⟨⟨h₁,h₂,h₃⟩,h₄,h₅⟩ => ⟨h₁,h₂,h₃,h₄,h₅⟩,fun ⟨h₁,h₂,h₃,h₄,h₅⟩ => ⟨⟨h₁,h₂,h₃⟩,h₄,h₅⟩⟩

theorem sound_machines : ∀ t ∈ machines, t.Sound := by decide +kernel

theorem canTransition_iff : t.canTransition a b=true ↔ ∃ x ∈ t.transitions, x.source=a ∧ x.target=b := by
  simp [canTransition]

theorem Sound.rank (h : t.Sound) (a b : String) (hab : t.canTransition a b=true) : t.height 6 a<t.height 6 b := by
  obtain ⟨x,hx,rfl,rfl⟩ := canTransition_iff.mp hab
  exact h.ranked x hx

/-- Every state is reached from the initial one: some line leads to it from a state with a shorter way. -/
theorem Sound.reachable (h : t.Sound) (ha : a ∈ t.states) :
    Relation.ReflTransGen (fun a b => t.canTransition a b=true) t.initial a := by
  induction hn : t.height 6 a using Nat.strong_induction_on generalizing a with
  | _ n ih =>
    rcases h.entered a ha with rfl | ⟨x,hx,rfl⟩
    · exact .refl
    · exact (ih _ (hn ▸ h.ranked x hx) (h.states x hx).1 rfl).tail (canTransition_iff.mpr ⟨x,hx,rfl,rfl⟩)

/-- From every state a terminal one is reached: the rank cannot go up for ever. -/
theorem Sound.ends (h : t.Sound) (ha : a ∈ t.states) :
    ∃ b ∈ t.terminal, Relation.ReflTransGen (fun a b => t.canTransition a b=true) a b := by
  induction hn : 6-t.height 6 a using Nat.strong_induction_on generalizing a with
  | _ n ih =>
    by_cases hend : a ∈ t.terminal
    · exact ⟨a,hend,.refl⟩
    · rw [h.terminal a ha] at hend
      push Not at hend
      obtain ⟨x,hx,rfl⟩ := hend
      have hup := h.ranked x hx
      have hle := height_le (t := t) 6 x.target
      obtain ⟨b,hb,hreach⟩ := ih _ (by omega) (h.states x hx).2 rfl
      exact ⟨b,hb,hreach.head (canTransition_iff.mpr ⟨x,hx,rfl,rfl⟩)⟩

theorem Sound.nextState_iff (h : t.Sound) :
    t.nextState a event=some b ↔ (⟨a,b,event⟩ : Transition) ∈ t.transitions := by
  unfold nextState
  constructor
  · intro hnext
    obtain ⟨x,hx,rfl⟩ := Option.map_eq_some_iff.mp hnext
    obtain ⟨hmem,hkey⟩ := List.mem_filter.mp (List.mem_of_getLast? hx)
    rw [Bool.and_eq_true,decide_eq_true_eq,decide_eq_true_eq] at hkey
    obtain ⟨rfl,rfl⟩ := hkey
    exact hmem
  · intro hmem
    have hfilter : (⟨a,b,event⟩ : Transition) ∈ t.transitions.filter fun x => x.source=a && x.event=event := by
      simp [hmem]
    obtain ⟨x,hx⟩ := Option.ne_none_iff_exists'.mp fun hnone =>
      List.ne_nil_of_mem hfilter (List.getLast?_eq_none_iff.mp hnone)
    obtain ⟨hxmem,hkey⟩ := List.mem_filter.mp (List.mem_of_getLast? hx)
    rw [Bool.and_eq_true,decide_eq_true_eq,decide_eq_true_eq] at hkey
    have := h.single x hxmem _ hmem hkey.1 hkey.2
    rw [hx,this]
    rfl

/-- In each of the machines a run visits no state twice and at most seven, a terminal state comes only at its
end, and a state with no way on is terminal; every state is reached from the initial one and reaches a
terminal one; an event leads from a state where its one line of the table says. -/
theorem machines_progress (t : TransitionTable) (ht : t ∈ machines) (run : List String)
    (hrun : run.IsChain fun a b => t.canTransition a b=true) :
    (run.Nodup ∧ run.length ≤ 7) ∧
    (∀ a ∈ run, t.isTerminal a=true → run.getLast?=some a) ∧
    (∀ a ∈ t.states, t.isTerminal a=true ↔ ∀ b, t.canTransition a b=false) ∧
    (∀ a ∈ t.states, Relation.ReflTransGen (fun a b => t.canTransition a b=true) t.initial a ∧
      ∃ b, t.isTerminal b=true ∧ Relation.ReflTransGen (fun a b => t.canTransition a b=true) a b) ∧
    ∀ a event b, t.nextState a event=some b ↔ (⟨a,b,event⟩ : Transition) ∈ t.transitions := by
  have h := sound_machines t ht
  have hterminal : ∀ a ∈ t.states, t.isTerminal a=true ↔ ∀ b, t.canTransition a b=false := by
    intro a ha
    rw [isTerminal,decide_eq_true_eq,h.terminal a ha]
    constructor
    · intro hnone b
      rw [Bool.eq_false_iff,ne_eq,canTransition_iff]
      rintro ⟨x,hx,hsource,-⟩
      exact hnone x hx hsource
    · intro hnone x hx hsource
      have := canTransition_iff.mpr ⟨x,hx,hsource,rfl⟩
      rw [hnone] at this
      cases this
  refine ⟨⟨Machine.nodup_of_ranked h.rank hrun,Machine.length_le_of_ranked h.rank (height_le 6) hrun⟩,?_,
    hterminal,?_,fun a event b => h.nextState_iff⟩
  · intro a ha hend
    refine Machine.no_dead_end ?_ hrun ha
    intro b hab
    obtain ⟨x,hx,rfl,-⟩ := canTransition_iff.mp hab
    rw [(hterminal x.source (h.states x hx).1).mp hend] at hab
    cases hab
  · intro a ha
    obtain ⟨b,hb,hreach⟩ := h.ends ha
    exact ⟨h.reachable ha,b,decide_eq_true hb,hreach⟩

theorem machines_progress_unknown :
    (["dispatching","execution_unknown","executing"].Nodup ∧ ["dispatching","execution_unknown","executing"].length ≤ 7) :=
  (machines_progress intentStatus (by decide +kernel) ["dispatching","execution_unknown","executing"] (by decide +kernel)).1

end TransitionTable

/-! Observations of an order. -/

/-- What is checked of the table of order states: it goes on from each of its lines. -/
theorem order_steps : ∀ x ∈ exchangeOrderStatus.transitions, ∀ y ∈ exchangeOrderStatus.transitions,
    x.target=y.source → exchangeOrderStatus.canTransition x.source y.target=true := by decide +kernel

theorem observationConsistent_iff {a b : String} :
    observationConsistent a b=true ↔ a=b ∨ exchangeOrderStatus.canTransition a b=true := by
  simp [observationConsistent]

/-- Observations that are consistent one by one are consistent over any distance, skipped ones included; a
state that was left is not seen again. -/
theorem observations_monotone (seen : List String) (h : seen.IsChain fun a b => observationConsistent a b=true) :
    seen.Pairwise (fun a b => observationConsistent a b=true) ∧
      ∀ i j k : ℕ, i ≤ j → j ≤ k → ∀ a, seen[i]?=some a → seen[k]?=some a → ∀ b ∈ seen[j]?, b=a := by
  have hsound := TransitionTable.sound_machines exchangeOrderStatus (by decide +kernel)
  have htrans : IsTrans String fun a b => observationConsistent a b=true := by
    constructor
    intro a b c hab hbc
    rw [observationConsistent_iff] at hab hbc ⊢
    rcases hab with rfl | hab
    · exact hbc
    · rcases hbc with rfl | hbc
      · exact .inr hab
      · obtain ⟨x,hx,rfl,rfl⟩ := TransitionTable.canTransition_iff.mp hab
        obtain ⟨y,hy,hxy,rfl⟩ := TransitionTable.canTransition_iff.mp hbc
        exact .inr (order_steps x hx y hy hxy.symm)
  have hanti : ∀ a b, observationConsistent a b=true → observationConsistent b a=true → a=b := by
    intro a b hab hba
    rw [observationConsistent_iff] at hab hba
    rcases hab with rfl | hab
    · rfl
    · rcases hba with rfl | hba
      · rfl
      · exact absurd (hsound.rank a b hab) (not_lt.mpr (hsound.rank b a hba).le)
  have hpair := List.isChain_iff_pairwise.mp h
  refine ⟨hpair,?_⟩
  intro i j k hij hjk a hi hk b hj
  have hget : ∀ {m n : ℕ} {x y : String}, m ≤ n → seen[m]?=some x → seen[n]?=some y → observationConsistent x y=true := by
    intro m n x y hmn hx hy
    obtain ⟨hm,rfl⟩ := List.getElem?_eq_some_iff.mp hx
    obtain ⟨hn,rfl⟩ := List.getElem?_eq_some_iff.mp hy
    rcases hmn.eq_or_lt with rfl | hlt
    · exact observationConsistent_iff.mpr (.inl rfl)
    · exact List.pairwise_iff_getElem.mp hpair m n hm hn hlt
  exact hanti b a (hget hjk hj hk) (hget hij hi hj)

theorem observations_monotone_fill :
    ["new","new","partially_filled","filled"].Pairwise fun a b => observationConsistent a b=true :=
  (observations_monotone ["new","new","partially_filled","filled"] (by decide +kernel)).1

/-! The table of execd is the shared one. -/

theorem execd_transitions : intentStatus.transitions=Execd.IntentStatus.transitions.map fun t =>
    ⟨t.1.asStr,t.2.1.asStr,t.2.2⟩ := by decide

theorem execd_asStr (a b : Execd.IntentStatus) : a.asStr=b.asStr ↔ a=b := by
  constructor
  · cases a <;> cases b <;> decide
  · rintro rfl
    rfl

/-- Execd allows a step exactly where the gateway does. -/
theorem execd_canTransitionTo (s target : Execd.IntentStatus) :
    s.canTransitionTo target=intentStatus.canTransition s.asStr target.asStr := by
  unfold Execd.IntentStatus.canTransitionTo TransitionTable.canTransition
  rw [execd_transitions,List.any_map]
  congr 1
  funext t
  simp [execd_asStr]

/-- An event leads where it does for the gateway. -/
theorem execd_nextState (s : Execd.IntentStatus) (event : String) :
    (s.nextState event).map Execd.IntentStatus.asStr=intentStatus.nextState s.asStr event := by
  unfold Execd.IntentStatus.nextState TransitionTable.nextState
  rw [execd_transitions,List.filter_map,List.getLast?_map,Option.map_map,Option.map_map]
  have hfilter : (fun t : Transition => decide (t.source=s.asStr) && decide (t.event=event)) ∘
      (fun t : Execd.IntentStatus×Execd.IntentStatus×String => (⟨t.1.asStr,t.2.1.asStr,t.2.2⟩ : Transition))=
        fun t => decide (t.1=s ∧ t.2.2=event) := by
    funext t
    simp [execd_asStr]
  rw [hfilter]
  rfl

end TradeGate.Transitions
