import Mathlib.Data.List.Nodup

/-! Lists whose elements are numbered on, one after the other. -/
namespace Feed

variable {α : Type} {seq : α → ℕ} {a n : ℕ} {x : α} {xs ys log : List α}

/-- The elements are numbered `a+1`, `a+2` and so on. -/
def Consecutive (seq : α → ℕ) (a : ℕ) (xs : List α) : Prop :=
  xs.map seq=List.range' (a+1) xs.length

namespace Consecutive

@[simp] theorem nil : Consecutive seq a [] := rfl

@[simp] theorem cons_iff : Consecutive seq a (x::xs) ↔ seq x=a+1 ∧ Consecutive seq (a+1) xs := by
  unfold Consecutive
  rw [List.map_cons,List.length_cons,List.range'_succ,List.cons_eq_cons]

theorem append (h : Consecutive seq a xs) (h' : Consecutive seq (a+xs.length) ys) :
    Consecutive seq a (xs++ys) := by
  induction xs generalizing a with
  | nil => exact h'
  | cons x xs ih =>
    rw [cons_iff] at h
    rw [List.cons_append,cons_iff]
    refine ⟨h.1,ih h.2 ?_⟩
    rwa [show a+1+xs.length=a+(x::xs).length by rw [List.length_cons]; omega]

/-- The next one is added. -/
theorem snoc (h : Consecutive seq a xs) (hx : seq x=a+xs.length+1) : Consecutive seq a (xs++[x]) :=
  h.append (by simp [hx])

theorem take (h : Consecutive seq a xs) (n : ℕ) : Consecutive seq a (xs.take n) := by
  induction xs generalizing a n with
  | nil => simp
  | cons x xs ih =>
    cases n with
    | zero => simp
    | succ n =>
      rw [cons_iff] at h
      rw [List.take_succ_cons,cons_iff]
      exact ⟨h.1,ih h.2 n⟩

theorem bounds (h : Consecutive seq a xs) (hx : x ∈ xs) : a<seq x ∧ seq x ≤ a+xs.length := by
  have hmem : seq x ∈ List.range' (a+1) xs.length := h ▸ List.mem_map_of_mem hx
  obtain ⟨i,hi,hs⟩ := List.mem_range'.mp hmem
  omega

theorem nodup (h : Consecutive seq a xs) : (xs.map seq).Nodup := h ▸ List.nodup_range'

/-- Only the ones after `n` are left when the ones up to `n` are dropped. -/
theorem filter_gt (h : Consecutive seq a xs) (n : ℕ) :
    xs.filter (fun x => n<seq x)=xs.drop (n-a) := by
  induction xs generalizing a with
  | nil => simp
  | cons x xs ih =>
    rw [cons_iff] at h
    by_cases hn : n<seq x
    · have hall : ∀ y ∈ xs, n<seq y := fun y hy => by
        have := (h.2.bounds hy).1
        omega
      rw [List.filter_cons_of_pos (by simpa using hn),List.filter_eq_self.mpr (by simpa using hall),
        show n-a=0 by omega,List.drop_zero]
    · rw [List.filter_cons_of_neg (by simpa using hn),ih h.2,show n-a=n-(a+1)+1 by omega,
        List.drop_succ_cons]

/-- Only the ones up to `n` are left when the ones after it are dropped. -/
theorem filter_le (h : Consecutive seq a xs) (n : ℕ) :
    xs.filter (fun x => seq x ≤ n)=xs.take (n-a) := by
  induction xs generalizing a with
  | nil => simp
  | cons x xs ih =>
    rw [cons_iff] at h
    by_cases hn : seq x ≤ n
    · rw [List.filter_cons_of_pos (by simpa using hn),ih h.2,show n-a=n-(a+1)+1 by omega,
        List.take_succ_cons]
    · have hall : ∀ y ∈ xs, ¬seq y ≤ n := fun y hy => by
        have := (h.2.bounds hy).1
        omega
      rw [List.filter_cons_of_neg (by simpa using hn),List.filter_eq_nil_iff.mpr (by simpa using hall),
        show n-a=0 by omega,List.take_zero]

theorem drop (h : Consecutive seq a xs) (n : ℕ) : Consecutive seq (a+n) (xs.drop n) := by
  induction n generalizing a xs with
  | zero => exact h
  | succ n ih =>
    cases xs with
    | nil => simp
    | cons x xs =>
      rw [cons_iff] at h
      rw [List.drop_succ_cons,show a+(n+1)=a+1+n by omega]
      exact ih h.2

/-- Elements of one numbered list are told apart by their numbers. -/
theorem eq_of_map_eq (hlog : (log.map seq).Nodup) (hx : xs ⊆ log) (hy : ys ⊆ log)
    (h : xs.map seq=ys.map seq) : xs=ys := by
  induction xs generalizing ys with
  | nil => exact (List.map_eq_nil_iff.mp h.symm).symm
  | cons x xs ih =>
    cases ys with
    | nil => cases h
    | cons y ys =>
      rw [List.map_cons,List.map_cons,List.cons_eq_cons] at h
      obtain ⟨hx₁,hx⟩ := List.cons_subset.mp hx
      obtain ⟨hy₁,hy⟩ := List.cons_subset.mp hy
      rw [List.inj_on_of_nodup_map hlog hx₁ hy₁ h.1,ih hx hy h.2]

end Consecutive

/-- The last number is there. -/
theorem Consecutive.exists_last (h : Consecutive seq a xs) (hne : xs ≠ []) :
    ∃ x ∈ xs, seq x=a+xs.length := by
  have hlen := List.length_pos_iff.mpr hne
  have hmem : a+xs.length ∈ xs.map seq := by
    rw [h]
    exact List.mem_range'.mpr ⟨xs.length-1,by omega,by omega⟩
  exact List.mem_map.mp hmem

/-- What is numbered on from `a` within a log numbered from one is just what the log holds after `a`
up to there. -/
theorem Consecutive.eq_filter (h : Consecutive seq a xs) (hlog : Consecutive seq 0 log) (hx : xs ⊆ log) :
    xs=log.filter fun x => a<seq x ∧ seq x ≤ a+xs.length := by
  have hd := hlog.drop a
  rw [Nat.zero_add] at hd
  have hpart : (log.filter fun x => a<seq x ∧ seq x ≤ a+xs.length)=(log.drop a).take xs.length := by
    calc log.filter (fun x => a<seq x ∧ seq x ≤ a+xs.length)
      _ = (log.filter fun x => a<seq x).filter fun x => seq x ≤ a+xs.length := by
        rw [List.filter_filter]
        exact List.filter_congr fun x _ => by rw [Bool.decide_and,Bool.and_comm]
      _ = (log.drop a).filter fun x => seq x ≤ a+xs.length := by rw [hlog.filter_gt,Nat.sub_zero]
      _ = (log.drop a).take xs.length := by rw [hd.filter_le,Nat.add_sub_cancel_left]
  have hroom : xs.length ≤ (log.drop a).length := by
    by_cases hne : xs=[]
    · simp [hne]
    · obtain ⟨x,hxs,hlast⟩ := h.exists_last hne
      have := (hlog.bounds (hx hxs)).2
      rw [List.length_drop]
      omega
  refine eq_of_map_eq hlog.nodup hx List.filter_sublist.subset ?_
  rw [hpart,h,hd.take,List.length_take,Nat.min_eq_left hroom]

end Feed
