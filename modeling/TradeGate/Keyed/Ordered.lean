import Mathlib.Data.List.Sort
import TradeGate.Keyed.Table

/-! Tables whose keys are ordered, read in the order of the keys; rows entered into a table. -/
namespace Keyed.Table

variable {α κ : Type} [DecidableEq κ] {key : α → κ} {T : Table key} {rows : List α} {a : α} {k : κ}

theorem mem_upsert_self (T : Table key) (a : α) : a ∈ (T.upsert a).rows :=
  mem_of_lookup (lookup_upsert_self T a)

theorem mem_upsert {b : α} : b ∈ (T.upsert a).rows ↔ b=a ∨ b ∈ T.rows ∧ key b ≠ key a := by
  constructor
  · intro hb
    have h := lookup_of_mem hb
    rw [lookup_upsert] at h
    split at h
    · exact .inl (Option.some.inj h).symm
    · exact .inr ⟨mem_of_lookup h,fun hk => by simp_all⟩
  · rintro (rfl | ⟨hb,hk⟩)
    · exact mem_upsert_self T b
    · have h : (T.upsert a).lookup (key b)=some b := by
        rw [lookup_upsert,if_neg (Ne.symm hk),lookup_of_mem hb]
      exact mem_of_lookup h

/-- A row of the result was there before, or is one of those entered. -/
theorem mem_of_mem_foldl (h : a ∈ (rows.foldl upsert T).rows) : a ∈ T.rows ∨ a ∈ rows := by
  induction rows generalizing T with
  | nil => exact .inl h
  | cons b rows ih =>
    rcases ih h with ha | ha
    · rcases mem_upsert.mp ha with rfl | ha
      · exact .inr List.mem_cons_self
      · exact .inl ha.1
    · exact .inr (List.mem_cons_of_mem _ ha)

/-- No key is lost. -/
theorem exists_key_foldl (h : ∃ b, (b ∈ T.rows ∨ b ∈ rows) ∧ key b=k) :
    ∃ b ∈ (rows.foldl upsert T).rows, key b=k := by
  induction rows generalizing T with
  | nil => simpa using h
  | cons c rows ih =>
    obtain ⟨b,hb,hk⟩ := h
    apply ih
    by_cases hc : key c=k
    · exact ⟨c,.inl (mem_upsert_self T c),hc⟩
    · refine ⟨b,?_,hk⟩
      rcases hb with hb | hb
      · exact .inl (mem_upsert.mpr (.inr ⟨hb,fun he => hc (he ▸ hk)⟩))
      · rcases List.mem_cons.mp hb with rfl | hb
        · exact absurd hk hc
        · exact .inr hb

/-- A row stays, or is entered, when those entered under its key are the row itself. -/
theorem mem_foldl_of_agree (h : a ∈ T.rows ∨ a ∈ rows) (same : ∀ b ∈ rows, key b=key a → b=a) :
    a ∈ (rows.foldl upsert T).rows := by
  induction rows generalizing T with
  | nil => simpa using h
  | cons c rows ih =>
    apply ih
    · by_cases hc : key c=key a
      · exact .inl (same c List.mem_cons_self hc ▸ mem_upsert_self T c)
      · rcases h with h | h
        · exact .inl (mem_upsert.mpr (.inr ⟨h,Ne.symm hc⟩))
        · exact .inr ((List.mem_cons.mp h).resolve_left fun he => hc (he ▸ rfl))
    · exact fun b hb => same b (List.mem_cons_of_mem _ hb)

section
variable [LinearOrder κ]

/-- The rows by their keys. -/
def inOrder (T : Table key) : List α := T.rows.insertionSort fun a b => key a ≤ key b

omit [DecidableEq κ] in
theorem mem_inOrder : a ∈ T.inOrder ↔ a ∈ T.rows := List.mem_insertionSort _

omit [DecidableEq κ] in
theorem inOrder_pairwise (T : Table key) : T.inOrder.Pairwise fun a b => key a<key b := by
  have : Std.Total fun a b : α => key a ≤ key b := ⟨fun a b => le_total _ _⟩
  have : IsTrans α fun a b => key a ≤ key b := ⟨fun _ _ _ => le_trans⟩
  have hsorted := List.pairwise_insertionSort (fun a b : α => key a ≤ key b) T.rows
  have hnodup : (T.inOrder.map key).Nodup :=
    ((List.perm_insertionSort _ T.rows).map key).nodup_iff.mpr T.nodup
  have hne := List.pairwise_map.mp hnodup
  exact (hsorted.and hne).imp fun h => lt_of_le_of_ne h.1 h.2

end
end Keyed.Table

/-! Stable sorting: items that are level with each other stay in the order they came in, and those of low
keys come first. -/
namespace Keyed

variable {α : Type} {l : List α} {p : α → Bool}

theorem filter_insertionSort {r : α → α → Prop} [DecidableRel r] [Std.Total r] [IsTrans α r]
    (h : ∀ a ∈ l, ∀ b ∈ l, p a=true → p b=true → r a b) : (l.insertionSort r).filter p=l.filter p := by
  have hlevel : (l.filter p).Pairwise r := by
    refine (List.pairwise_of_forall_mem_list fun a ha b hb => ?_)
    exact h a (List.mem_of_mem_filter ha) b (List.mem_of_mem_filter hb) (List.mem_filter.mp ha).2 (List.mem_filter.mp hb).2
  have hsub := (List.sublist_insertionSort hlevel List.filter_sublist).filter p
  rw [List.filter_filter] at hsub
  simp only [Bool.and_self] at hsub
  exact (hsub.eq_of_length ((List.perm_insertionSort r l).filter p).length_eq.symm).symm

/-- A list in which nothing of the kind follows what is not of it. -/
theorem filter_append_filter (h : l.Pairwise fun a b => p b=true → p a=true) :
    l.filter p ++ l.filter (fun a => !p a)=l := by
  induction l with
  | nil => rfl
  | cons a l ih =>
    obtain ⟨ha,hl⟩ := List.pairwise_cons.mp h
    cases hp : p a with
    | true =>
      rw [List.filter_cons_of_pos hp,List.filter_cons_of_neg (by simp [hp]),List.cons_append,ih hl]
    | false =>
      have hnone : l.filter p=[] := List.filter_eq_nil_iff.mpr fun b hb hpb => by
        rw [ha b hb hpb] at hp
        cases hp
      have hall : l.filter (fun a => !p a)=l := List.filter_eq_self.mpr fun b hb => by
        cases hpb : p b with
        | true => rw [ha b hb hpb] at hp; cases hp
        | false => rfl
      rw [List.filter_cons_of_neg (by simp [hp]),List.filter_cons_of_pos (by simp [hp]),hnone,hall]
      rfl

/-- Sorted by a key, the items below a bound come first; those at one key at or above it stay in order. -/
theorem insertionSort_split {key : α → ℕ} {n : ℕ} (h : ∀ a ∈ l, key a<n ∨ key a=n) :
    l.insertionSort (fun a b => key a ≤ key b) =
      (l.insertionSort fun a b => key a ≤ key b).filter (fun a => key a<n) ++ l.filter fun a => !decide (key a<n) := by
  have : Std.Total fun a b : α => key a ≤ key b := ⟨fun a b => le_total _ _⟩
  have : IsTrans α fun a b => key a ≤ key b := ⟨fun _ _ _ => le_trans⟩
  have hlevel : (l.insertionSort fun a b => key a ≤ key b).filter (fun a => !decide (key a<n)) =
      l.filter fun a => !decide (key a<n) := by
    refine filter_insertionSort fun a ha b hb hpa hpb => ?_
    have hna : ¬key a<n := by simpa using hpa
    have hnb : ¬key b<n := by simpa using hpb
    have := h a ha
    omega
  rw [← hlevel]
  refine (filter_append_filter ?_).symm
  refine (List.pairwise_insertionSort _ l).imp fun hab hb => ?_
  rw [decide_eq_true_eq] at hb ⊢
  omega

end Keyed
