import TradeGate.Canonical.Agree

/-! Trees that are alike up to the order of members and null members, and the form that all of them
are arranged to. -/
namespace TradeGate.Canonical
open Js

namespace Tree

variable {ν μ : Type}

/-- Alike up to the order of the members and members that are null, at any depth. -/
inductive Same : Tree ν → Tree ν → Prop
  | refl (t : Tree ν) : Same t t
  | symm {t u : Tree ν} : Same t u → Same u t
  | trans {t u v : Tree ν} : Same t u → Same u v → Same t v
  | item (xs : List (Tree ν)) {t u : Tree ν} (ys : List (Tree ν)) :
      Same t u → Same (arr (xs++t::ys)) (arr (xs++u::ys))
  | member (ms : List (String × Tree ν)) (k : String) {t u : Tree ν} (ns : List (String × Tree ν)) :
      Same t u → Same (obj (ms++(k,t)::ns)) (obj (ms++(k,u)::ns))
  | order {ms ns : List (String × Tree ν)} : ms.Perm ns → Same (obj ms) (obj ns)
  | absent {k : String} {ms : List (String × Tree ν)} :
      k ∉ ms.map Prod.fst → Same (obj ((k,null)::ms)) (obj ms)

/-- Without null members, and members in the order of their code points. -/
def arranged (t : Tree ν) : Tree ν := t.arrange (sortBy codePoints)

/-! Arranging and distinct names, list by list. -/
section
variable {order : List (String × Tree ν) → List (String × Tree ν)}

theorem arrangeAll_eq (xs : List (Tree ν)) : arrangeAll order xs=xs.map (arrange order) := by
  induction xs with
  | nil => rw [arrangeAll,List.map_nil]
  | cons x xs ih => rw [arrangeAll,ih,List.map_cons]

theorem arrangeMembers_eq (ms : List (String × Tree ν)) :
    arrangeMembers order ms =
      (ms.filter fun m => !m.2.isNull).map fun m => (m.1,arrange order m.2) := by
  induction ms with
  | nil => rw [arrangeMembers,List.filter_nil,List.map_nil]
  | cons m ms ih =>
    obtain ⟨k,x⟩ := m
    rw [arrangeMembers,ih]
    cases hx : x.isNull with
    | true => rw [if_pos rfl,List.filter_cons_of_neg (by simp [hx])]
    | false => rw [if_neg (by decide),List.filter_cons_of_pos (by simp [hx]),List.map_cons]

theorem distinctAll_iff (xs : List (Tree ν)) : DistinctAll xs ↔ ∀ x ∈ xs, Distinct x := by
  induction xs with
  | nil => simp [DistinctAll]
  | cons x xs ih => rw [DistinctAll,ih,List.forall_mem_cons]

theorem distinctMembers_iff (ms : List (String × Tree ν)) :
    DistinctMembers ms ↔ ∀ m ∈ ms, Distinct m.2 := by
  induction ms with
  | nil => simp [DistinctMembers]
  | cons m ms ih =>
    obtain ⟨k,x⟩ := m
    rw [DistinctMembers,ih,List.forall_mem_cons]

theorem numbersAll_eq (xs : List (Tree ν)) : numbersAll xs=xs.flatMap numbers := by
  induction xs with
  | nil => rw [numbersAll,List.flatMap_nil]
  | cons x xs ih => rw [numbersAll,ih,List.flatMap_cons]

theorem numbersMembers_eq (ms : List (String × Tree ν)) :
    numbersMembers ms=ms.flatMap fun m => m.2.numbers := by
  induction ms with
  | nil => rw [numbersMembers,List.flatMap_nil]
  | cons m ms ih => rw [numbersMembers.eq_2,ih,List.flatMap_cons]

theorem arrangeMembers_names (ms : List (String × Tree ν)) :
    (arrangeMembers order ms).map Prod.fst=kept ms := by
  rw [arrangeMembers_eq,List.map_map]
  rfl

theorem arrangeMembers_nodup {ms : List (String × Tree ν)} (h : (ms.map Prod.fst).Nodup) :
    ((arrangeMembers order ms).map Prod.fst).Nodup := by
  rw [arrangeMembers_names]
  exact kept_nodup h

end

/-- Members of distinct names are sorted to one list, in whatever order they come. -/
theorem sortBy_eq_of_perm {ms ns : List (String × Tree ν)} (h : ms.Perm ns)
    (hn : (ms.map Prod.fst).Nodup) : sortBy codePoints ms=sortBy codePoints ns := by
  have hms := sortBy_strict codePoints_injective hn
  have hns := sortBy_strict codePoints_injective ((h.map Prod.fst).nodup_iff.mp hn)
  refine List.Perm.eq_of_pairwise (fun a b _ _ hab hba => absurd hba (lt_asymm hab)) hms hns ?_
  exact ((sortBy_perm _ ms).trans h).trans (sortBy_perm _ ns).symm

/-- What stays as it is between trees that are alike. -/
structure Agrees (t u : Tree ν) : Prop where
  distinct : t.Distinct ↔ u.Distinct
  nullity : t.isNull=u.isNull
  numbers : t.numbers.Perm u.numbers
  arranged : t.Distinct → t.arranged=u.arranged

theorem arranged_obj (ms : List (String × Tree ν)) :
    (obj ms).arranged=obj (sortBy codePoints (arrangeMembers (sortBy codePoints) ms)) := by
  rw [Tree.arranged,arrange]

theorem Agrees.item {t u : Tree ν} (h : Agrees t u) (xs ys : List (Tree ν)) :
    Agrees (arr (xs++t::ys)) (arr (xs++u::ys)) where
  distinct := by
    rw [Distinct,Distinct,distinctAll_iff,distinctAll_iff]
    simp only [List.forall_mem_append,List.forall_mem_cons,h.distinct]
  nullity := rfl
  numbers := by
    rw [Tree.numbers,Tree.numbers,numbersAll_eq,numbersAll_eq]
    simp only [List.flatMap_append,List.flatMap_cons]
    exact (h.numbers.append_right _).append_left _
  arranged hd := by
    rw [Distinct,distinctAll_iff] at hd
    have htu := h.arranged (hd t (by simp))
    unfold Tree.arranged at htu
    rw [Tree.arranged,Tree.arranged,arrange,arrange,arrangeAll_eq,arrangeAll_eq]
    simp only [List.map_append,List.map_cons,htu]

theorem Agrees.member {t u : Tree ν} (h : Agrees t u) (ms : List (String × Tree ν)) (k : String)
    (ns : List (String × Tree ν)) : Agrees (obj (ms++(k,t)::ns)) (obj (ms++(k,u)::ns)) where
  distinct := by
    rw [Distinct,Distinct,distinctMembers_iff,distinctMembers_iff]
    simp only [List.forall_mem_append,List.forall_mem_cons,h.distinct,List.map_append,List.map_cons]
  nullity := rfl
  numbers := by
    rw [Tree.numbers,Tree.numbers,numbersMembers_eq,numbersMembers_eq]
    simp only [List.flatMap_append,List.flatMap_cons]
    exact (h.numbers.append_right _).append_left _
  arranged hd := by
    rw [Distinct,distinctMembers_iff] at hd
    have htu := h.arranged (hd.2 (k,t) (by simp))
    unfold Tree.arranged at htu
    rw [arranged_obj,arranged_obj,arrangeMembers_eq,arrangeMembers_eq,List.filter_append,
      List.filter_append,List.filter_cons,List.filter_cons,h.nullity]
    cases u.isNull <;> simp [htu]

theorem Agrees.order {ms ns : List (String × Tree ν)} (h : ms.Perm ns) : Agrees (obj ms) (obj ns) where
  distinct := by
    rw [Distinct,Distinct,distinctMembers_iff,distinctMembers_iff,(h.map Prod.fst).nodup_iff]
    simp only [h.mem_iff]
  nullity := rfl
  numbers := by
    rw [Tree.numbers,Tree.numbers,numbersMembers_eq,numbersMembers_eq]
    exact h.flatMap_right _
  arranged hd := by
    rw [Distinct] at hd
    rw [arranged_obj,arranged_obj]
    congr 1
    apply sortBy_eq_of_perm
    · rw [arrangeMembers_eq,arrangeMembers_eq]
      exact (h.filter _).map _
    · exact arrangeMembers_nodup hd.1

theorem Agrees.absent {k : String} {ms : List (String × Tree ν)} (h : k ∉ ms.map Prod.fst) :
    Agrees (obj ((k,null)::ms)) (obj ms) where
  distinct := by
    rw [Distinct,Distinct,DistinctMembers,List.map_cons,List.nodup_cons]
    simp only [h,Distinct,not_false_eq_true,true_and]
  nullity := rfl
  numbers := by
    have hnull : (Tree.null : Tree ν).numbers=[] := by simp [Tree.numbers]
    rw [Tree.numbers,Tree.numbers,numbersMembers.eq_2,hnull,List.nil_append]
  arranged _ := by
    rw [arranged_obj,arranged_obj,arrangeMembers]
    rfl

theorem Same.agrees {t u : Tree ν} (h : Same t u) : Agrees t u := by
  induction h with
  | refl t => exact ⟨Iff.rfl,rfl,.refl _,fun _ => rfl⟩
  | symm _ ih =>
    exact ⟨ih.distinct.symm,ih.nullity.symm,ih.numbers.symm,
      fun hd => (ih.arranged (ih.distinct.mpr hd)).symm⟩
  | trans _ _ ih ih' =>
    exact ⟨ih.distinct.trans ih'.distinct,ih.nullity.trans ih'.nullity,ih.numbers.trans ih'.numbers,
      fun hd => (ih.arranged hd).trans (ih'.arranged (ih.distinct.mp hd))⟩
  | item xs ys _ ih => exact ih.item xs ys
  | member ms k ns _ ih => exact ih.member ms k ns
  | order h => exact Agrees.order h
  | absent h => exact Agrees.absent h

/-! A tree is like the one that it is arranged to. -/
mutual

theorem same_arranged : ∀ t : Tree ν, t.Distinct → Same t t.arranged
  | null, _ => by rw [arranged,arrange]; exact .refl _
  | bool b, _ => by rw [arranged,arrange]; exact .refl _
  | num x, _ => by rw [arranged,arrange]; exact .refl _
  | str s, _ => by rw [arranged,arrange]; exact .refl _
  | arr xs, h => by
    rw [Distinct] at h
    rw [arranged,arrange]
    exact same_items xs h []
  | obj ms, h => by
    rw [Distinct] at h
    rw [arranged_obj]
    exact (same_members ms h.2 [] h.1).trans (.order (sortBy_perm _ _).symm)

theorem same_items : ∀ xs : List (Tree ν), DistinctAll xs → ∀ zs : List (Tree ν),
    Same (arr (zs++xs)) (arr (zs++arrangeAll (sortBy codePoints) xs))
  | [], _, zs => by rw [arrangeAll]; exact .refl _
  | x::xs, h, zs => by
    rw [DistinctAll] at h
    rw [arrangeAll,List.append_cons zs (arrange _ x)]
    apply Same.trans (.item zs xs (same_arranged x h.1))
    rw [List.append_cons]
    exact same_items xs h.2 _

theorem same_members : ∀ ms : List (String × Tree ν), DistinctMembers ms →
    ∀ zs : List (String × Tree ν), ((zs++ms).map Prod.fst).Nodup →
      Same (obj (zs++ms)) (obj (zs++arrangeMembers (sortBy codePoints) ms))
  | [], _, zs, _ => by rw [arrangeMembers]; exact .refl _
  | (k,x)::ms, h, zs, hn => by
    rw [DistinctMembers] at h
    have hperm : (zs++(k,x)::ms).Perm ((k,x)::(zs++ms)) := List.perm_middle
    have hn' := (hperm.map Prod.fst).nodup_iff.mp hn
    rw [List.map_cons,List.nodup_cons] at hn'
    rw [arrangeMembers]
    cases hx : x.isNull with
    | true =>
      rw [if_pos rfl]
      rw [distinct_null hx] at hperm ⊢
      exact ((Same.order hperm).trans (.absent hn'.1)).trans (same_members ms h.2 zs hn'.2)
    | false =>
      rw [if_neg (by decide),List.append_cons zs (k,arrange _ x)]
      apply Same.trans (.member zs k ms (same_arranged x h.1))
      rw [List.append_cons]
      apply same_members ms h.2
      rw [← List.append_cons,List.map_append,List.map_cons]
      rwa [List.map_append,List.map_cons] at hn

end

/-- Two trees are alike just if they are arranged to one. -/
theorem same_iff {t u : Tree ν} (ht : t.Distinct) (hu : u.Distinct) :
    Same t u ↔ t.arranged=u.arranged := by
  constructor
  · exact fun h => h.agrees.arranged ht
  · intro h
    have hu' := same_arranged u hu
    rw [← h] at hu'
    exact (same_arranged t ht).trans hu'.symm

theorem distinct_arranged {t : Tree ν} (h : t.Distinct) : t.arranged.Distinct :=
  (same_arranged t h).agrees.distinct.mp h

theorem mem_numbers_arranged {t : Tree ν} (h : t.Distinct) {x : ν} :
    x ∈ t.arranged.numbers ↔ x ∈ t.numbers :=
  (same_arranged t h).agrees.numbers.symm.mem_iff

/-- Arranging once is enough. -/
theorem arranged_arranged {t : Tree ν} (h : t.Distinct) : t.arranged.arranged=t.arranged :=
  ((same_arranged t h).agrees.arranged h).symm

end Tree
end TradeGate.Canonical
