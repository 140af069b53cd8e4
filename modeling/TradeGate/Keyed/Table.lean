import Mathlib.Algebra.BigOperators.Group.List.Basic
import Mathlib.Data.List.Nodup
import Mathlib.Tactic.Abel

/-! Tables with one row for each key.  A table carries the proof that no key occurs twice; the
only ways to build one are the empty table and insert-or-replace. -/
namespace Keyed

variable {α κ : Type} [DecidableEq κ]

/-- Replaces the row with the same key, or adds one at the end. -/
def upsertRows (key : α → κ) (a : α) : List α → List α
  | [] => [a]
  | b::bs => if key b=key a then a::bs else b::upsertRows key a bs

section
variable {key : α → κ} {a : α} {k : κ}

theorem mem_keys_upsertRows {rows : List α} :
    k ∈ (upsertRows key a rows).map key ↔ k=key a ∨ k ∈ rows.map key := by
  induction rows with
  | nil => simp [upsertRows]
  | cons b rows ih =>
    by_cases h : key b=key a
    · simp [upsertRows,h]
    · simp only [upsertRows,h,if_false,List.map_cons,List.mem_cons,ih]
      tauto

theorem nodup_upsertRows {rows : List α} (h : (rows.map key).Nodup) :
    ((upsertRows key a rows).map key).Nodup := by
  induction rows with
  | nil => simp [upsertRows]
  | cons b rows ih =>
    rw [List.map_cons,List.nodup_cons] at h
    by_cases hb : key b=key a
    · simp only [upsertRows,hb,if_true,List.map_cons,List.nodup_cons]
      exact ⟨hb ▸ h.1,h.2⟩
    · simp only [upsertRows,hb,if_false,List.map_cons,List.nodup_cons,mem_keys_upsertRows]
      exact ⟨by tauto,ih h.2⟩

theorem find?_upsertRows (rows : List α) :
    (upsertRows key a rows).find? (fun b => key b=k)=
      if key a=k then some a else rows.find? fun b => key b=k := by
  induction rows with
  | nil => by_cases h : key a=k <;> simp [upsertRows,h]
  | cons b rows ih =>
    by_cases hb : key b=key a
    · by_cases h : key a=k <;> simp [upsertRows,hb,h]
    · by_cases h : key a=k
      · have hk : key b ≠ k := fun hk => hb (hk.trans h.symm)
        simp [upsertRows,h,hk,ih]
      · rw [upsertRows,if_neg hb,List.find?_cons,ih,if_neg h,if_neg h,List.find?_cons]

/-- Replacing a row twice is replacing it once. -/
theorem upsertRows_upsertRows {b : α} (h : key b=key a) (rows : List α) :
    upsertRows key b (upsertRows key a rows)=upsertRows key b rows := by
  induction rows with
  | nil => simp [upsertRows,h]
  | cons c rows ih => by_cases hc : key c=key a <;> simp [upsertRows,h,hc,ih]

theorem find?_of_nodup {rows : List α} (h : (rows.map key).Nodup) (ha : a ∈ rows) :
    rows.find? (fun b => key b=key a)=some a := by
  induction rows with
  | nil => cases ha
  | cons b rows ih =>
    rw [List.map_cons,List.nodup_cons] at h
    rcases List.mem_cons.mp ha with rfl|ha
    · simp
    · have hb : key b ≠ key a := fun hb => h.1 (hb ▸ List.mem_map_of_mem ha)
      simp [hb,ih h.2 ha]

end

/-- Rows without a repeated key. -/
structure Table (key : α → κ) where
  rows : List α
  nodup : (rows.map key).Nodup

namespace Table

variable {key : α → κ}

def empty : Table key := ⟨[],List.nodup_nil⟩

def upsert (T : Table key) (a : α) : Table key := ⟨upsertRows key a T.rows,nodup_upsertRows T.nodup⟩

/-- The row with the key. -/
def lookup (T : Table key) (k : κ) : Option α := T.rows.find? fun a => key a=k

variable {T : Table key} {a : α} {k : κ}

theorem lookup_upsert (T : Table key) (a : α) (k : κ) :
    (T.upsert a).lookup k=if key a=k then some a else T.lookup k := find?_upsertRows T.rows

@[simp] theorem lookup_upsert_self (T : Table key) (a : α) :
    (T.upsert a).lookup (key a)=some a := by rw [lookup_upsert,if_pos rfl]

theorem upsert_upsert {b : α} (h : key b=key a) (T : Table key) :
    (T.upsert a).upsert b=T.upsert b := by
  simp only [upsert,upsertRows_upsertRows h]

/-- Every row changed, under its key. -/
def mapRows (T : Table key) (f : α → α) (hf : ∀ a, key (f a)=key a) : Table key :=
  ⟨T.rows.map f,by
    rw [List.map_map,show key ∘ f=key from funext hf]
    exact T.nodup⟩

theorem lookup_mapRows (T : Table key) (f : α → α) (hf : ∀ a, key (f a)=key a) (k : κ) :
    (T.mapRows f hf).lookup k=(T.lookup k).map f := by
  unfold lookup mapRows
  rw [List.find?_map]
  congr 2
  funext a
  simp [hf]

/-- The table without the row of the key. -/
def erase (T : Table key) (k : κ) : Table key :=
  ⟨T.rows.filter fun a => key a ≠ k,(List.filter_sublist.map key).nodup T.nodup⟩

theorem lookup_erase (T : Table key) (k j : κ) :
    (T.erase k).lookup j=if k=j then none else T.lookup j := by
  unfold lookup erase
  rw [List.find?_filter]
  split
  next h =>
    subst h
    simp
  next h =>
    congr 1
    funext a
    by_cases ha : key a=j
    · simp [ha,Ne.symm h]
    · simp [ha]

/-- Rows entered one after the other. -/
def ofRows (rows : List α) : Table key := rows.foldl upsert empty

theorem upsertRows_of_new {rows : List α} (h : key a ∉ rows.map key) :
    upsertRows key a rows=rows ++ [a] := by
  induction rows with
  | nil => rfl
  | cons b rows ih =>
    rw [List.map_cons,List.mem_cons,not_or] at h
    rw [upsertRows,if_neg (Ne.symm h.1),ih h.2,List.cons_append]

/-- A row of a known key keeps its place. -/
theorem map_key_upsertRows {rows : List α} (h : key a ∈ rows.map key) :
    (upsertRows key a rows).map key=rows.map key := by
  induction rows with
  | nil => cases h
  | cons b rows ih =>
    by_cases hb : key b=key a
    · rw [upsertRows,if_pos hb,List.map_cons,List.map_cons,hb]
    · rw [upsertRows,if_neg hb,List.map_cons,List.map_cons,
        ih ((List.mem_cons.mp h).resolve_left (Ne.symm hb))]

theorem rows_foldl_upsert {rows : List α} (T : Table key) (h : ((T.rows ++ rows).map key).Nodup) :
    (rows.foldl upsert T).rows=T.rows ++ rows := by
  induction rows generalizing T with
  | nil => exact (List.append_nil _).symm
  | cons a rows ih =>
    rw [List.append_cons] at h
    have hrow : (T.upsert a).rows=T.rows ++ [a] := by
      refine upsertRows_of_new fun ha => ?_
      rw [List.append_assoc,List.map_append,List.nodup_append] at h
      exact h.2.2 _ ha _ (by simp) rfl
    rw [List.foldl_cons,ih _ (by rw [hrow]; exact h),hrow,List.append_assoc]
    rfl

/-- Rows without a repeated key are entered as they are. -/
theorem rows_ofRows {rows : List α} (h : (rows.map key).Nodup) : (ofRows rows : Table key).rows=rows :=
  rows_foldl_upsert empty h

theorem ofRows_rows (T : Table key) : ofRows T.rows=T := by
  cases T with
  | mk rows nodup =>
    have h := rows_ofRows nodup
    cases hT : (ofRows rows : Table key)
    rw [hT] at h
    cases h
    rfl

theorem key_of_lookup (h : T.lookup k=some a) : key a=k := by
  simpa using List.find?_some h

theorem mem_of_lookup (h : T.lookup k=some a) : a ∈ T.rows := List.mem_of_find?_eq_some h

theorem lookup_of_mem (h : a ∈ T.rows) : T.lookup (key a)=some a := find?_of_nodup T.nodup h

section
variable {M : Type} [AddCommGroup M]

/-- The sum of a function over the rows. -/
def total (T : Table key) (f : α → M) : M := (T.rows.map f).sum

omit [DecidableEq κ] in
theorem total_congr {f g : α → M} (h : ∀ a ∈ T.rows, f a=g a) : T.total f=T.total g := by
  rw [total,total,List.map_congr_left h]

omit [DecidableEq κ] in
theorem total_add (T : Table key) (f g : α → M) :
    T.total (fun a => f a+g a)=T.total f+T.total g := List.sum_map_add

theorem sum_upsertRows (f : α → M) (rows : List α) :
    ((upsertRows key a rows).map f).sum+((rows.find? fun b => key b=key a).elim 0 f)=
      (rows.map f).sum+f a := by
  induction rows with
  | nil => simp [upsertRows]
  | cons b rows ih =>
    by_cases hb : key b=key a
    · simp only [upsertRows,hb,if_true,List.map_cons,List.sum_cons,List.find?_cons,decide_true,
        Option.elim_some]
      abel
    · simp only [upsertRows,hb,if_false,List.map_cons,List.sum_cons,List.find?_cons,decide_false,
        add_assoc,ih]

/-- A new row counts in place of the row it replaces. -/
theorem total_upsert (T : Table key) (a : α) (f : α → M) :
    (T.upsert a).total f=T.total f+f a-(T.lookup (key a)).elim 0 f :=
  eq_sub_of_add_eq (sum_upsertRows f T.rows)

theorem sum_filter_key_ne (f : α → M) {rows : List α} (h : (rows.map key).Nodup) (k : κ) :
    ((rows.filter fun a => key a ≠ k).map f).sum+((rows.find? fun a => key a=k).elim 0 f)=
      (rows.map f).sum := by
  induction rows with
  | nil => simp
  | cons b rows ih =>
    rw [List.map_cons,List.nodup_cons] at h
    by_cases hb : key b=k
    · have hrest : rows.filter (fun a => key a ≠ k)=rows := by
        refine List.filter_eq_self.mpr fun a ha => ?_
        have hne : key a ≠ k := fun hk => h.1 ((hb.trans hk.symm) ▸ List.mem_map_of_mem ha)
        simpa using hne
      rw [List.filter_cons_of_neg (by simpa using hb),hrest,List.find?_cons_of_pos (by simpa using hb),
        List.map_cons,List.sum_cons,Option.elim_some,add_comm]
    · rw [List.filter_cons_of_pos (by simpa using hb),List.find?_cons_of_neg (by simpa using hb),
        List.map_cons,List.sum_cons,add_assoc,ih h.2,List.map_cons,List.sum_cons]

theorem total_erase (T : Table key) (k : κ) (f : α → M) :
    (T.erase k).total f=T.total f-(T.lookup k).elim 0 f :=
  eq_sub_of_add_eq (sum_filter_key_ne f T.nodup k)

end

end Table
/-- Values kept under keys, in the order the keys first came. -/
abbrev Map (κ β : Type) [DecidableEq κ] := Table (Prod.fst : κ × β → κ)

namespace Map

variable {β : Type}

def get (m : Map κ β) (k : κ) : Option β := (m.lookup k).map Prod.snd

def set (m : Map κ β) (k : κ) (v : β) : Map κ β := m.upsert (k,v)

@[simp] theorem get_empty (k : κ) : get (Table.empty : Map κ β) k=none := rfl

theorem get_set (m : Map κ β) (k j : κ) (v : β) : (m.set k v).get j=if k=j then some v else m.get j := by
  rw [get,set,Table.lookup_upsert]
  split <;> rfl

/-- The keys, oldest first. -/
def keys (m : Map κ β) : List κ := m.rows.map Prod.fst

theorem keys_set_of_new {m : Map κ β} {k : κ} (h : k ∉ m.keys) (v : β) : (m.set k v).keys=m.keys ++ [k] := by
  have hrows : (m.set k v).rows=m.rows ++ [(k,v)] := Table.upsertRows_of_new h
  rw [keys,hrows,List.map_append]
  rfl

theorem keys_set_of_mem {m : Map κ β} {k : κ} (h : k ∈ m.keys) (v : β) : (m.set k v).keys=m.keys :=
  Table.map_key_upsertRows h

theorem nodup_keys (m : Map κ β) : m.keys.Nodup := m.nodup

theorem get_eq_none_iff {m : Map κ β} {k : κ} : m.get k=none ↔ k ∉ m.keys := by
  simp only [get,keys,Table.lookup,Option.map_eq_none_iff,List.find?_eq_none,decide_eq_true_eq,
    List.mem_map,not_exists,not_and]

end Map
end Keyed

/-! The rows of a table that pass a test. -/
namespace Keyed.Table

variable {α κ : Type} [DecidableEq κ] {key : α → κ} {T : Table key} {a : α} {k : κ} {p : α → Bool}

/-- The table with the rows that pass. -/
def filter (T : Table key) (p : α → Bool) : Table key :=
  ⟨T.rows.filter p,(List.filter_sublist.map key).nodup T.nodup⟩

theorem lookup_eq_some_iff : T.lookup k=some a ↔ a ∈ T.rows ∧ key a=k := by
  constructor
  · intro h
    exact ⟨mem_of_lookup h,key_of_lookup h⟩
  · rintro ⟨h,rfl⟩
    exact lookup_of_mem h

theorem lookup_filter_eq_some_iff :
    (T.filter p).lookup k=some a ↔ T.lookup k=some a ∧ p a := by
  simp only [lookup_eq_some_iff,filter,List.mem_filter]
  tauto

theorem lookup_erase_eq_some_iff {j : κ} :
    (T.erase j).lookup k=some a ↔ T.lookup k=some a ∧ k ≠ j := by
  rw [lookup_erase]
  by_cases h : j=k
  · simp [h]
  · simp [h,Ne.symm h]

end Keyed.Table
