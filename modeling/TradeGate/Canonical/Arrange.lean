import TradeGate.Canonical.Order
import TradeGate.Canonical.Text

/-! Canonicalization in two parts: the numbers are checked, and what is left is arranged, by dropping
null members and ordering the others.  The runtimes differ in the check and in the order. -/
namespace TradeGate.Canonical
open Js

namespace Tree

variable {ν μ κ : Type}

/-! Without null members, and each object's members in the given order. -/
mutual

def arrange (order : List (String × Tree ν) → List (String × Tree ν)) : Tree ν → Tree ν
  | null => null
  | bool b => bool b
  | num x => num x
  | str s => str s
  | arr xs => arr (arrangeAll order xs)
  | obj ms => obj (order (arrangeMembers order ms))

def arrangeAll (order : List (String × Tree ν) → List (String × Tree ν)) :
    List (Tree ν) → List (Tree ν)
  | [] => []
  | x::xs => arrange order x::arrangeAll order xs

def arrangeMembers (order : List (String × Tree ν) → List (String × Tree ν)) :
    List (String × Tree ν) → List (String × Tree ν)
  | [] => []
  | (k,x)::ms => if x.isNull then arrangeMembers order ms else (k,arrange order x)::arrangeMembers order ms

end

/-! Numbers are read one after the other. -/
mutual

theorem mapNumbers_bind (f : ν → Option μ) (g : μ → Option κ) :
    ∀ t : Tree ν, (t.mapNumbers f).bind (mapNumbers g)=t.mapNumbers fun x => (f x).bind g
  | null => by rw [mapNumbers,mapNumbers,Option.bind_some,mapNumbers]
  | bool b => by rw [mapNumbers,mapNumbers,Option.bind_some,mapNumbers]
  | num x => by
    rw [mapNumbers,mapNumbers]
    cases f x with
    | none => rfl
    | some y => rw [Option.map_some,Option.bind_some,Option.bind_some,mapNumbers]
  | str s => by rw [mapNumbers,mapNumbers,Option.bind_some,mapNumbers]
  | arr xs => by
    rw [mapNumbers,mapNumbers,← mapNumbersAll_bind f g xs]
    cases mapNumbersAll f xs with
    | none => rfl
    | some ys => rw [Option.map_some,Option.bind_some,Option.bind_some,mapNumbers]
  | obj ms => by
    rw [mapNumbers,mapNumbers,← mapNumbersMembers_bind f g ms]
    cases mapNumbersMembers f ms with
    | none => rfl
    | some ns => rw [Option.map_some,Option.bind_some,Option.bind_some,mapNumbers]

theorem mapNumbersAll_bind (f : ν → Option μ) (g : μ → Option κ) :
    ∀ xs : List (Tree ν), (mapNumbersAll f xs).bind (mapNumbersAll g) =
      mapNumbersAll (fun x => (f x).bind g) xs
  | [] => by rw [mapNumbersAll,mapNumbersAll,Option.bind_some,mapNumbersAll]
  | x::xs => by
    rw [mapNumbersAll,mapNumbersAll,← mapNumbers_bind f g x,← mapNumbersAll_bind f g xs]
    cases mapNumbers f x with
    | none => rfl
    | some y =>
      cases mapNumbersAll f xs with
      | none => simp
      | some ys => simp [mapNumbersAll]

theorem mapNumbersMembers_bind (f : ν → Option μ) (g : μ → Option κ) :
    ∀ ms : List (String × Tree ν), (mapNumbersMembers f ms).bind (mapNumbersMembers g) =
      mapNumbersMembers (fun x => (f x).bind g) ms
  | [] => by rw [mapNumbersMembers,mapNumbersMembers,Option.bind_some,mapNumbersMembers]
  | (k,x)::ms => by
    rw [mapNumbersMembers,mapNumbersMembers,← mapNumbers_bind f g x,← mapNumbersMembers_bind f g ms]
    cases mapNumbers f x with
    | none => rfl
    | some y =>
      cases mapNumbersMembers f ms with
      | none => simp
      | some ns => simp [mapNumbersMembers]

end

/-! A reading that always succeeds. -/
mutual

theorem mapNumbers_some (g : ν → μ) : ∀ t : Tree ν, t.mapNumbers (fun x => some (g x))=some (t.map g)
  | null => by rw [mapNumbers,map]
  | bool b => by rw [mapNumbers,map]
  | num x => by rw [mapNumbers,map,Option.map_some]
  | str s => by rw [mapNumbers,map]
  | arr xs => by rw [mapNumbers,map,mapNumbersAll_some g xs,Option.map_some]
  | obj ms => by rw [mapNumbers,map,mapNumbersMembers_some g ms,Option.map_some]

theorem mapNumbersAll_some (g : ν → μ) :
    ∀ xs : List (Tree ν), mapNumbersAll (fun x => some (g x)) xs=some (mapAll g xs)
  | [] => by rw [mapNumbersAll,mapAll]
  | x::xs => by
    rw [mapNumbersAll,mapAll,mapNumbers_some g x,mapNumbersAll_some g xs,Option.bind_some,
      Option.map_some]

theorem mapNumbersMembers_some (g : ν → μ) :
    ∀ ms : List (String × Tree ν), mapNumbersMembers (fun x => some (g x)) ms=some (mapMembers g ms)
  | [] => by rw [mapNumbersMembers,mapMembers]
  | (k,x)::ms => by
    rw [mapNumbersMembers,mapMembers,mapNumbers_some g x,mapNumbersMembers_some g ms,
      Option.bind_some,Option.map_some]

end

/-- Reading the numbers of a tree as their texts. -/
theorem mapNumbers_text (f : ν → Option μ) (g : μ → κ) (t : Tree ν) :
    t.mapNumbers (fun x => (f x).map g)=(t.mapNumbers f).map (map g) := by
  have hmap : (fun x => (f x).map g)=fun x => (f x).bind fun y => some (g y) := by
    funext x
    cases f x <;> rfl
  rw [hmap,← mapNumbers_bind f]
  cases t.mapNumbers f with
  | none => rfl
  | some u => rw [Option.bind_some,mapNumbers_some,Option.map_some]

/-! A tree is read just if all its numbers are. -/
mutual

theorem isSome_mapNumbers (f : ν → Option μ) :
    ∀ t : Tree ν, (t.mapNumbers f).isSome ↔ ∀ x ∈ t.numbers, (f x).isSome
  | null => by simp [mapNumbers,numbers]
  | bool b => by simp [mapNumbers,numbers]
  | num x => by simp [mapNumbers,numbers]
  | str s => by simp [mapNumbers,numbers]
  | arr xs => by
    rw [mapNumbers,numbers,← isSome_mapNumbersAll f xs,Option.isSome_map]
  | obj ms => by
    rw [mapNumbers,numbers,← isSome_mapNumbersMembers f ms,Option.isSome_map]

theorem isSome_mapNumbersAll (f : ν → Option μ) :
    ∀ xs : List (Tree ν), (mapNumbersAll f xs).isSome ↔ ∀ x ∈ numbersAll xs, (f x).isSome
  | [] => by simp [mapNumbersAll,numbersAll]
  | x::xs => by
    rw [mapNumbersAll,numbersAll,List.forall_mem_append,← isSome_mapNumbers f x,
      ← isSome_mapNumbersAll f xs]
    cases mapNumbers f x <;> simp

theorem isSome_mapNumbersMembers (f : ν → Option μ) : ∀ ms : List (String × Tree ν),
    (mapNumbersMembers f ms).isSome ↔ ∀ x ∈ numbersMembers ms, (f x).isSome
  | [] => by simp [mapNumbersMembers,numbersMembers]
  | (k,x)::ms => by
    rw [mapNumbersMembers,numbersMembers,List.forall_mem_append,← isSome_mapNumbers f x,
      ← isSome_mapNumbersMembers f ms]
    cases mapNumbers f x <;> simp

end

/-! Only the numbers of the tree matter. -/
mutual

theorem mapNumbers_congr {f g : ν → Option μ} :
    ∀ t : Tree ν, (∀ x ∈ t.numbers, f x=g x) → t.mapNumbers f=t.mapNumbers g
  | null, _ => by rw [mapNumbers,mapNumbers]
  | bool b, _ => by rw [mapNumbers,mapNumbers]
  | num x, h => by rw [mapNumbers,mapNumbers,h x (by simp [numbers])]
  | str s, _ => by rw [mapNumbers,mapNumbers]
  | arr xs, h => by
    rw [mapNumbers,mapNumbers,mapNumbersAll_congr xs (by rwa [numbers] at h)]
  | obj ms, h => by
    rw [mapNumbers,mapNumbers,mapNumbersMembers_congr ms (by rwa [numbers] at h)]

theorem mapNumbersAll_congr {f g : ν → Option μ} :
    ∀ xs : List (Tree ν), (∀ x ∈ numbersAll xs, f x=g x) → mapNumbersAll f xs=mapNumbersAll g xs
  | [], _ => by rw [mapNumbersAll,mapNumbersAll]
  | x::xs, h => by
    rw [numbersAll,List.forall_mem_append] at h
    rw [mapNumbersAll,mapNumbersAll,mapNumbers_congr x h.1,mapNumbersAll_congr xs h.2]

theorem mapNumbersMembers_congr {f g : ν → Option μ} : ∀ ms : List (String × Tree ν),
    (∀ x ∈ numbersMembers ms, f x=g x) → mapNumbersMembers f ms=mapNumbersMembers g ms
  | [], _ => by rw [mapNumbersMembers,mapNumbersMembers]
  | (k,x)::ms, h => by
    rw [numbersMembers,List.forall_mem_append] at h
    rw [mapNumbersMembers,mapNumbersMembers,mapNumbers_congr x h.1,mapNumbersMembers_congr ms h.2]

end

theorem isNull_mapNumbers {f : ν → Option μ} {t : Tree ν} {u : Tree μ} (h : t.mapNumbers f=some u) :
    u.isNull=t.isNull := by
  cases t with
  | null | bool | str =>
    rw [mapNumbers] at h
    cases h
    rfl
  | num | arr | obj =>
    rw [mapNumbers] at h
    obtain ⟨y,-,rfl⟩ := Option.map_eq_some_iff.mp h
    rfl

/-- How each runtime goes through a value: it checks the numbers, drops null members and orders
the others. -/
structure Strips (check : ν → Option ν) (order : List (String × Tree ν) → List (String × Tree ν))
    (strip : Tree ν → Option (Tree ν)) (stripAll : List (Tree ν) → Option (List (Tree ν)))
    (stripMembers : List (String × Tree ν) → Option (List (String × Tree ν))) : Prop where
  null : strip null=some null
  bool : ∀ b, strip (bool b)=some (bool b)
  num : ∀ x, strip (num x)=(check x).map num
  str : ∀ s, strip (str s)=some (str s)
  arr : ∀ xs, strip (arr xs)=(stripAll xs).map arr
  obj : ∀ ms, strip (obj ms)=(stripMembers ms).map fun ms => obj (order ms)
  nil : stripAll []=some []
  cons : ∀ x xs, stripAll (x::xs)=(strip x).bind fun y => (stripAll xs).map (y::·)
  noMembers : stripMembers []=some []
  member : ∀ k x ms, stripMembers ((k,x)::ms) =
    if x.isNull then stripMembers ms else (strip x).bind fun y => (stripMembers ms).map ((k,y)::·)

section
variable {check : ν → Option ν} {order : List (String × Tree ν) → List (String × Tree ν)}
  {strip : Tree ν → Option (Tree ν)} {stripAll : List (Tree ν) → Option (List (Tree ν))}
  {stripMembers : List (String × Tree ν) → Option (List (String × Tree ν))}

mutual

theorem strip_eq (h : Strips check order strip stripAll stripMembers) :
    ∀ t, strip t=(t.mapNumbers check).map (arrange order)
  | .null => by rw [h.null,mapNumbers,Option.map_some,arrange]
  | .bool b => by rw [h.bool,mapNumbers,Option.map_some,arrange]
  | .num x => by
    rw [h.num,mapNumbers]
    cases check x with
    | none => rfl
    | some y => rw [Option.map_some,Option.map_some,arrange]
  | .str s => by rw [h.str,mapNumbers,Option.map_some,arrange]
  | .arr xs => by
    rw [h.arr,mapNumbers,stripAll_eq h xs]
    cases mapNumbersAll check xs with
    | none => rfl
    | some ys => rw [Option.map_some,Option.map_some,Option.map_some,Option.map_some,arrange]
  | .obj ms => by
    rw [h.obj,mapNumbers,stripMembers_eq h ms]
    cases mapNumbersMembers check ms with
    | none => rfl
    | some ns => rw [Option.map_some,Option.map_some,Option.map_some,Option.map_some,arrange]

theorem stripAll_eq (h : Strips check order strip stripAll stripMembers) :
    ∀ xs, stripAll xs=(mapNumbersAll check xs).map (arrangeAll order)
  | [] => by rw [h.nil,mapNumbersAll,Option.map_some,arrangeAll]
  | x::xs => by
    rw [h.cons,mapNumbersAll,strip_eq h x,stripAll_eq h xs]
    cases mapNumbers check x with
    | none => rfl
    | some y =>
      cases mapNumbersAll check xs with
      | none => rfl
      | some ys => simp [arrangeAll]

theorem stripMembers_eq (h : Strips check order strip stripAll stripMembers) :
    ∀ ms, stripMembers ms=(mapNumbersMembers check ms).map (arrangeMembers order)
  | [] => by rw [h.noMembers,mapNumbersMembers,Option.map_some,arrangeMembers]
  | (k,x)::ms => by
    rw [h.member,mapNumbersMembers,strip_eq h x,stripMembers_eq h ms]
    cases hx : x.isNull with
    | true =>
      have hnull : x=.null := by
        cases x <;> first | rfl | cases hx
      subst hnull
      rw [if_pos rfl,mapNumbers,Option.bind_some]
      cases mapNumbersMembers check ms with
      | none => rfl
      | some ns => rw [Option.map_some,Option.map_some,Option.map_some,arrangeMembers.eq_2]; rfl
    | false =>
      rw [if_neg (by decide)]
      cases hy : mapNumbers check x with
      | none => rfl
      | some y =>
        have hny := isNull_mapNumbers hy
        rw [hx] at hny
        cases mapNumbersMembers check ms with
        | none => rfl
        | some ns => simp [arrangeMembers,hny]

end
end

/-! Arranging goes along with reading the numbers differently. -/
section
variable {f : ν → μ} {order : List (String × Tree ν) → List (String × Tree ν)}
  {order' : List (String × Tree μ) → List (String × Tree μ)}

theorem mapMembers_eq (f : ν → μ) (ms : List (String × Tree ν)) :
    mapMembers f ms=ms.map fun m => (m.1,m.2.map f) := by
  induction ms with
  | nil => rfl
  | cons m ms ih => rw [mapMembers.eq_2,ih]; rfl

theorem isNull_map (f : ν → μ) (t : Tree ν) : (t.map f).isNull=t.isNull := by
  cases t <;> rw [map] <;> rfl

mutual

theorem arrange_map (h : ∀ ms, mapMembers f (order ms)=order' (mapMembers f ms)) :
    ∀ t : Tree ν, (arrange order t).map f=arrange order' (t.map f)
  | .null => by rw [arrange,map,arrange]
  | .bool b => by rw [arrange,map,arrange]
  | .num x => by rw [arrange,map,arrange]
  | .str s => by rw [arrange,map,arrange]
  | .arr xs => by rw [arrange,map,map,arrange,arrangeAll_map h xs]
  | .obj ms => by rw [arrange,map,map,arrange,h,arrangeMembers_map h ms]

theorem arrangeAll_map (h : ∀ ms, mapMembers f (order ms)=order' (mapMembers f ms)) :
    ∀ xs : List (Tree ν), mapAll f (arrangeAll order xs)=arrangeAll order' (mapAll f xs)
  | [] => by rw [arrangeAll,mapAll,arrangeAll]
  | x::xs => by
    rw [arrangeAll,mapAll,mapAll,arrangeAll,arrange_map h x,arrangeAll_map h xs]

theorem arrangeMembers_map (h : ∀ ms, mapMembers f (order ms)=order' (mapMembers f ms)) :
    ∀ ms : List (String × Tree ν),
      mapMembers f (arrangeMembers order ms)=arrangeMembers order' (mapMembers f ms)
  | [] => by rw [arrangeMembers,mapMembers,arrangeMembers]
  | (k,x)::ms => by
    rw [arrangeMembers,mapMembers.eq_2,arrangeMembers,isNull_map]
    split
    · exact arrangeMembers_map h ms
    · rw [mapMembers.eq_2,arrange_map h x,arrangeMembers_map h ms]

end
end

end Tree
end TradeGate.Canonical
