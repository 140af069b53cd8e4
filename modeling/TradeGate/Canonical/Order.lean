import Mathlib.Data.List.Perm.Basic
import Mathlib.Order.Monotone.Basic
import TradeGate.Model.Canonical

/-! The orders that the runtimes put keys in.  UTF-8 keeps the order of code points; UTF-16 and the
array indices of JavaScript do not. -/
namespace TradeGate.Canonical

/-! Codes of characters, one after the other. -/
section
variable {α β : Type} [LinearOrder α] [LinearOrder β] {e : α → List β}

/-- Two texts differ somewhere, and the first one is smaller there. -/
def Below (xs ys : List β) : Prop :=
  ∃ p a b u v, xs=p++a::u ∧ ys=p++b::v ∧ a<b

theorem Below.lt {xs ys : List β} (h : Below xs ys) (u v : List β) : xs++u<ys++v := by
  obtain ⟨p,a,b,u',v',rfl,rfl,hab⟩ := h
  rw [List.append_assoc,List.append_assoc]
  exact List.append_left_lt (List.cons_lt_cons_iff.mpr (.inl hab))

/-- A code that keeps the order of the characters keeps the order of the texts. -/
theorem flatMap_strictMono (hne : ∀ a, e a ≠ []) (he : ∀ a b, a<b → Below (e a) (e b)) :
    StrictMono fun xs : List α => xs.flatMap e := by
  intro xs ys h
  dsimp only
  induction xs generalizing ys with
  | nil =>
    cases ys with
    | nil => exact absurd h (lt_irrefl _)
    | cons y ys =>
      rw [List.flatMap_nil,List.flatMap_cons]
      obtain ⟨c,cs,hc⟩ := List.exists_cons_of_ne_nil (hne y)
      rw [hc]
      exact List.nil_lt_cons c _
  | cons x xs ih =>
    cases ys with
    | nil => exact absurd h (List.not_lt_nil _)
    | cons y ys =>
      rw [List.flatMap_cons,List.flatMap_cons]
      rcases List.cons_lt_cons_iff.mp h with hxy|⟨rfl,hxs⟩
      · exact (he x y hxy).lt _ _
      · exact List.append_left_lt (ih hxs)

end

/-! UTF-8. -/

/-- The bytes of a code point. -/
def bytes (n : ℕ) : List ℕ :=
  if n<0x80 then [n]
  else if n<0x800 then [0xC0+n/0x40,0x80+n%0x40]
  else if n<0x10000 then [0xE0+n/0x1000,0x80+n/0x40%0x40,0x80+n%0x40]
  else [0xF0+n/0x40000,0x80+n/0x1000%0x40,0x80+n/0x40%0x40,0x80+n%0x40]

theorem bytes_ne_nil (n : ℕ) : bytes n ≠ [] := by
  unfold bytes
  split_ifs <;> exact List.cons_ne_nil _ _

theorem below_head {a b : ℕ} {u v : List ℕ} (h : a<b) : Below (a::u) (b::v) :=
  ⟨[],a,b,u,v,rfl,rfl,h⟩

theorem below_cons {a b : ℕ} {u v : List ℕ} (h : a=b) (hu : Below u v) : Below (a::u) (b::v) := by
  obtain ⟨p,c,d,u',v',rfl,rfl,hcd⟩ := hu
  exact ⟨a::p,c,d,u',v',rfl,by rw [h]; rfl,hcd⟩

theorem below_bytes (m n : ℕ) (h : m<n) : Below (bytes m) (bytes n) := by
  unfold bytes
  split_ifs
  all_goals first
    | exact below_head (by omega)
    | omega
    | skip
  · rcases lt_or_eq_of_le (show m/0x40 ≤ n/0x40 by omega) with hd|hd
    · exact below_head (by omega)
    · exact below_cons (by omega) (below_head (by omega))
  · rcases lt_or_eq_of_le (show m/0x1000 ≤ n/0x1000 by omega) with hd|hd
    · exact below_head (by omega)
    · rcases lt_or_eq_of_le (show m/0x40 ≤ n/0x40 by omega) with he|he
      · exact below_cons (by omega) (below_head (by omega))
      · exact below_cons (by omega) (below_cons (by omega) (below_head (by omega)))
  · rcases lt_or_eq_of_le (show m/0x40000 ≤ n/0x40000 by omega) with hd|hd
    · exact below_head (by omega)
    · rcases lt_or_eq_of_le (show m/0x1000 ≤ n/0x1000 by omega) with he|he
      · exact below_cons (by omega) (below_head (by omega))
      · rcases lt_or_eq_of_le (show m/0x40 ≤ n/0x40 by omega) with hf|hf
        · exact below_cons (by omega) (below_cons (by omega) (below_head (by omega)))
        · exact below_cons (by omega) (below_cons (by omega) (below_cons (by omega)
            (below_head (by omega))))

theorem utf8_eq (s : String) : utf8 s=(codePoints s).flatMap bytes := by
  rw [utf8,codePoints,List.flatMap_map]
  rfl

/-- UTF-8 orders texts by their code points. -/
theorem utf8_le_iff (s t : String) : utf8 s ≤ utf8 t ↔ codePoints s ≤ codePoints t := by
  rw [utf8_eq,utf8_eq]
  exact (flatMap_strictMono bytes_ne_nil below_bytes).le_iff_le

theorem codePoints_injective : Function.Injective codePoints := fun _ _ h =>
  String.toList_injective (List.map_injective_iff.mpr (fun _ _ => Char.toNat_inj.mp) h)

/-! UTF-16. -/

/-- The code units of a code point. -/
def units (n : ℕ) : List ℕ := if n<0x10000 then [n] else [0xD800+(n-0x10000)/0x400,0xDC00+(n-0x10000)%0x400]

theorem units_length_pos (n : ℕ) : 0<(units n).length := by
  unfold units
  split_ifs <;> exact Nat.succ_pos _

/-- No code point is a surrogate, so the first unit tells whether there is a second one. -/
theorem units_inj {m n : ℕ} {xs ys : List ℕ} (hm : m.isValidChar) (hn : n.isValidChar)
    (h : units m++xs=units n++ys) : m=n ∧ xs=ys := by
  unfold Nat.isValidChar at hm hn
  unfold units at h
  split_ifs at h <;> simp only [List.cons_append,List.nil_append,List.cons.injEq] at h
  · exact h
  · omega
  · omega
  · exact ⟨by omega,h.2.2⟩

theorem utf16_injective : Function.Injective utf16 := by
  have hflat : ∀ s, utf16 s=s.toList.flatMap fun c => units c.toNat := fun s => rfl
  intro s t h
  rw [hflat,hflat] at h
  refine String.toList_injective ?_
  revert h
  generalize s.toList=cs
  generalize t.toList=ds
  intro h
  induction cs generalizing ds with
  | nil =>
    cases ds with
    | nil => rfl
    | cons d ds =>
      have hd := congrArg List.length h
      rw [List.flatMap_nil,List.flatMap_cons,List.length_append,List.length_nil] at hd
      have := units_length_pos d.toNat
      omega
  | cons c cs ih =>
    cases ds with
    | nil =>
      have hd := congrArg List.length h
      rw [List.flatMap_nil,List.flatMap_cons,List.length_append,List.length_nil] at hd
      have := units_length_pos c.toNat
      omega
    | cons d ds =>
      rw [List.flatMap_cons,List.flatMap_cons] at h
      obtain ⟨hcd,hrest⟩ := units_inj c.valid d.valid h
      rw [Char.toNat_inj.mp hcd,ih ds hrest]

/-! Sorted members. -/
section
variable {β : Type} {code : String → List ℕ} {ms : List (String × β)}

theorem sortBy_perm (code : String → List ℕ) (ms : List (String × β)) : (sortBy code ms).Perm ms :=
  List.perm_insertionSort _ ms

theorem sortBy_sorted (code : String → List ℕ) (ms : List (String × β)) :
    (sortBy code ms).Pairwise fun a b => code a.1 ≤ code b.1 := by
  have htotal : Std.Total fun a b : String × β => code a.1 ≤ code b.1 := ⟨fun a b => le_total _ _⟩
  have htrans : IsTrans (String × β) fun a b => code a.1 ≤ code b.1 := ⟨fun _ _ _ => le_trans⟩
  exact List.pairwise_insertionSort (fun a b : String × β => code a.1 ≤ code b.1) ms

/-- Members of different names are in strict order, if the code tells the names apart. -/
theorem sortBy_strict (hcode : Function.Injective code) (h : (ms.map Prod.fst).Nodup) :
    (sortBy code ms).Pairwise fun a b => code a.1<code b.1 := by
  have hn : ((sortBy code ms).map Prod.fst).Nodup :=
    ((sortBy_perm code ms).map Prod.fst).nodup_iff.mpr h
  exact (sortBy_sorted code ms).imp₂ (fun a b hle hne => lt_of_le_of_ne hle (hcode.ne hne))
    (List.pairwise_map.mp hn)

theorem sortBy_utf8 (ms : List (String × β)) : sortBy utf8 ms=sortBy codePoints ms := by
  unfold sortBy
  congr 1
  funext a b
  exact propext (utf8_le_iff a.1 b.1)

end

/-! The order of the gateway. -/
namespace Gateway
variable {β : Type} {ms : List (String × β)}

theorem arrayIndex_injective {s t : String} {n : ℕ} (hs : arrayIndex s=some n)
    (ht : arrayIndex t=some n) : s=t := by
  have hof : ∀ {s}, arrayIndex s=some n → toString n=s := fun h => by
    have h' := (Option.filter_eq_some_iff.mp h).2
    simp only [decide_eq_true_eq] at h'
    exact h'.1
  rw [← hof hs,hof ht]

/-- Array indices come first, by number, and then the other keys in the order of their code units. -/
def before (a b : String) : Prop :=
  match arrayIndex a, arrayIndex b with
  | some i, some j => i<j
  | some _, none => True
  | none, some _ => False
  | none, none => utf16 a<utf16 b

theorem before_asymm {a b : String} (h : before a b) : ¬before b a := by
  unfold before at h ⊢
  cases ha : arrayIndex a with
  | none =>
    cases hb : arrayIndex b with
    | none =>
      rw [ha,hb] at h
      exact lt_asymm h
    | some j =>
      rw [ha,hb] at h
      exact absurd h id
  | some i =>
    cases hb : arrayIndex b with
    | none => exact id
    | some j =>
      rw [ha,hb] at h
      exact lt_asymm h

theorem ownMembers_perm (ms : List (String × β)) : (ownMembers ms).Perm ms := by
  refine ((List.perm_insertionSort _ _).append_right _).trans ?_
  have hnot : (fun m : String × β => (arrayIndex m.1).isNone)=fun m => !(arrayIndex m.1).isSome := by
    funext m
    cases arrayIndex m.1 <;> rfl
  rw [hnot]
  exact List.filter_append_perm _ ms

theorem index_of_mem {a : String × β} (h : a ∈ ms.filter fun m => (arrayIndex m.1).isSome) :
    ∃ i, arrayIndex a.1=some i :=
  Option.isSome_iff_exists.mp (List.mem_filter.mp h).2

theorem noIndex_of_mem {a : String × β} (h : a ∈ ms.filter fun m => (arrayIndex m.1).isNone) :
    arrayIndex a.1=none :=
  Option.isNone_iff_eq_none.mp (List.mem_filter.mp h).2

/-- The members that were assigned in the order of their code units. -/
theorem ownMembers_before (h : (ms.map Prod.fst).Nodup)
    (hs : ms.Pairwise fun a b => utf16 a.1<utf16 b.1) :
    (ownMembers ms).Pairwise fun a b => before a.1 b.1 := by
  have hne : ms.Pairwise fun a b => a.1 ≠ b.1 := List.pairwise_map.mp h
  refine List.pairwise_append.mpr ⟨?_,?_,?_⟩
  · -- array indices are told apart by their numbers
    have htotal : Std.Total fun a b : String × β => (arrayIndex a.1).getD 0 ≤ (arrayIndex b.1).getD 0 :=
      ⟨fun a b => le_total _ _⟩
    have htrans : IsTrans (String × β) fun a b => (arrayIndex a.1).getD 0 ≤ (arrayIndex b.1).getD 0 :=
      ⟨fun _ _ _ => le_trans⟩
    have hp := List.perm_insertionSort
      (fun a b : String × β => (arrayIndex a.1).getD 0 ≤ (arrayIndex b.1).getD 0)
      (ms.filter fun m => (arrayIndex m.1).isSome)
    have hle := List.pairwise_insertionSort
      (fun a b : String × β => (arrayIndex a.1).getD 0 ≤ (arrayIndex b.1).getD 0)
      (ms.filter fun m => (arrayIndex m.1).isSome)
    have hdiff := (hp.pairwise_iff fun {a b} (hab : a.1 ≠ b.1) => hab.symm).mpr
      (hne.filter fun m => (arrayIndex m.1).isSome)
    refine (hle.and hdiff).imp_of_mem fun {a b} ha hb hab => ?_
    obtain ⟨i,hi⟩ := index_of_mem (hp.subset ha)
    obtain ⟨j,hj⟩ := index_of_mem (hp.subset hb)
    obtain ⟨hij,hab⟩ := hab
    rw [hi,hj] at hij
    unfold before
    rw [hi,hj]
    refine lt_of_le_of_ne hij ?_
    rintro rfl
    exact hab (arrayIndex_injective hi hj)
  · refine (hs.filter fun m => (arrayIndex m.1).isNone).imp_of_mem fun {a b} ha hb hab => ?_
    unfold before
    rw [noIndex_of_mem ha,noIndex_of_mem hb]
    exact hab
  · intro a ha b hb
    obtain ⟨i,hi⟩ := index_of_mem ((List.perm_insertionSort _ _).subset ha)
    unfold before
    rw [hi,noIndex_of_mem hb]
    trivial

end Gateway
end TradeGate.Canonical
