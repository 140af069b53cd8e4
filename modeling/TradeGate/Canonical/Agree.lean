import TradeGate.Canonical.Arrange
import TradeGate.Canonical.Numbers
import TradeGate.Number.Safe

/-! When the three runtimes print a value alike. -/
namespace TradeGate.Canonical
open Js TradeGate.Canonical.Tree

/-! The runtimes as a check of the numbers and an order of the members. -/
section
variable {ν μ : Type}

theorem map_sortBy (code : String → List ℕ) (f : ν → μ) (ms : List (String × Tree ν)) :
    mapMembers f (sortBy code ms)=sortBy code (mapMembers f ms) := by
  rw [mapMembers_eq,mapMembers_eq,sortBy,sortBy]
  exact List.map_insertionSort _ _ _ _ fun a _ b _ => Iff.rfl

namespace Gateway

def check (x : Js.Num) : Option Js.Num := if isInteger x then some x else none

theorem strips : Strips check (fun ms => assign (sortBy utf16 ms)) normalize normalizeAll
    normalizeMembers where
  null := by rw [normalize]
  bool b := by rw [normalize]
  num x := by
    rw [normalize,check]
    split <;> rfl
  str s := by rw [normalize]
  arr xs := by rw [normalize]
  obj ms := by rw [normalize]
  nil := by rw [normalizeAll]
  cons x xs := by rw [normalizeAll]
  noMembers := by rw [normalizeMembers]
  member k x ms := by rw [normalizeMembers]

theorem map_assign (f : ν → μ) (ms : List (String × Tree ν)) :
    mapMembers f (assign ms)=assign (mapMembers f ms) := by
  have hsort : ∀ ns : List (String × Tree ν),
      (ns.insertionSort fun a b => (arrayIndex a.1).getD 0 ≤ (arrayIndex b.1).getD 0).map
          (fun m => (m.1,m.2.map f)) =
        (ns.map fun m => (m.1,m.2.map f)).insertionSort
          fun a b => (arrayIndex a.1).getD 0 ≤ (arrayIndex b.1).getD 0 :=
    fun ns => List.map_insertionSort _ _ _ _ fun a _ b _ => Iff.rfl
  rw [mapMembers_eq,mapMembers_eq,assign,assign,ownMembers,ownMembers,List.map_append,hsort]
  simp only [List.filter_map]
  rfl

/-- The number as the gateway reads it, if it may stand in canonical JSON. -/
def read (l : Numeral) : Option Js.Num := (parse l).bind check

/-- How the gateway orders the members of an object. -/
def order (ms : List (String × Tree ν)) : List (String × Tree ν) := assign (sortBy utf16 ms)

theorem canonicalJson_eq (v : Json) :
    canonicalJson v=(v.tree.mapNumbers read).map fun t => (t.arrange order).text Double.text := by
  have hread : v.tree.mapNumbers read=(v.tree.mapNumbers parse).bind (mapNumbers check) :=
    (mapNumbers_bind parse check v.tree).symm
  rw [canonicalJson,hread]
  cases v.tree.mapNumbers parse with
  | none => rfl
  | some t =>
    rw [Option.bind_some,Option.bind_some,strip_eq strips t,Option.map_map]
    rfl

end Gateway

namespace Execd

def check : Number → Option Number
  | .float _ => none
  | x => some x

theorem strips : Strips check (sortBy utf8) walk walkAll walkMembers where
  null := by rw [walk]
  bool b := by rw [walk]
  num x := by cases x <;> rw [walk] <;> rfl
  str s := by rw [walk]
  arr xs := by rw [walk]
  obj ms := by rw [walk]
  nil := by rw [walkAll]
  cons x xs := by rw [walkAll]
  noMembers := by rw [walkMembers]
  member k x ms := by rw [walkMembers]

/-- The number as execd reads it, if it may stand in canonical JSON. -/
def read (l : Numeral) : Option Number := (parse l).bind check

theorem canonicalJson_eq (v : Json) :
    canonicalJson v=(v.tree.mapNumbers read).map fun t =>
      (t.arrange (sortBy codePoints)).text Number.text := by
  have hread : v.tree.mapNumbers read=(v.tree.mapNumbers parse).bind (mapNumbers check) :=
    (mapNumbers_bind parse check v.tree).symm
  have horder : (sortBy utf8 : List (String × Tree Number) → _)=sortBy codePoints :=
    funext sortBy_utf8
  rw [canonicalJson,hread]
  cases v.tree.mapNumbers parse with
  | none => rfl
  | some t =>
    rw [Option.bind_some,Option.bind_some,strip_eq strips t,Option.map_map,horder]
    rfl

end Execd

namespace Reference

def check : Number → Option Number
  | .float _ => none
  | x => some x

theorem strips : Strips check (fun ms => ms) stripNulls stripAll stripMembers where
  null := by rw [stripNulls]
  bool b := by rw [stripNulls]
  num x := by cases x <;> rw [stripNulls] <;> rfl
  str s := by rw [stripNulls]
  arr xs := by rw [stripNulls]
  obj ms := by rw [stripNulls]
  nil := by rw [stripAll]
  cons x xs := by rw [stripAll]
  noMembers := by rw [stripMembers]
  member k x ms := by rw [stripMembers]

/-! Sorting where it prints is sorting where it strips. -/
mutual

theorem sortKeys_arrange : ∀ t : Tree ν,
    sortKeys (t.arrange fun ms => ms)=t.arrange (sortBy codePoints)
  | .null => by rw [arrange,arrange,sortKeys]
  | .bool b => by rw [arrange,arrange,sortKeys]
  | .num x => by rw [arrange,arrange,sortKeys]
  | .str s => by rw [arrange,arrange,sortKeys]
  | .arr xs => by rw [arrange,arrange,sortKeys,sortAll_arrange xs]
  | .obj ms => by rw [arrange,arrange,sortKeys,sortMembers_arrange ms]

theorem sortAll_arrange : ∀ xs : List (Tree ν),
    sortAll (arrangeAll (fun ms => ms) xs)=arrangeAll (sortBy codePoints) xs
  | [] => by rw [arrangeAll,arrangeAll,sortAll]
  | x::xs => by rw [arrangeAll,arrangeAll,sortAll,sortKeys_arrange x,sortAll_arrange xs]

theorem sortMembers_arrange : ∀ ms : List (String × Tree ν),
    sortMembers (arrangeMembers (fun ms => ms) ms)=arrangeMembers (sortBy codePoints) ms
  | [] => by rw [arrangeMembers,arrangeMembers,sortMembers]
  | (k,x)::ms => by
    rw [arrangeMembers,arrangeMembers]
    split
    · exact sortMembers_arrange ms
    · rw [sortMembers.eq_2,sortKeys_arrange x,sortMembers_arrange ms]

end

/-- The number as the script reads it, if it may stand in canonical JSON. -/
def read (l : Numeral) : Option Number := (parse l).bind check

theorem canonical_eq (v : Json) :
    canonical v=(v.tree.mapNumbers read).map fun t =>
      (t.arrange (sortBy codePoints)).text Number.text := by
  have hread : v.tree.mapNumbers read=(v.tree.mapNumbers parse).bind (mapNumbers check) :=
    (mapNumbers_bind parse check v.tree).symm
  rw [canonical,hread]
  cases v.tree.mapNumbers parse with
  | none => rfl
  | some t =>
    rw [Option.bind_some,Option.bind_some,strip_eq strips t,Option.map_map]
    simp only [Function.comp_def,sortKeys_arrange]

end Reference
end

/-! Orders of members. -/
section
variable {β : Type} {ms ns : List (String × β)}

/-- The gateway keeps these member names, and lists them in the order of their code points. -/
def Orderly (keys : List String) : Prop :=
  "__proto__" ∉ keys ∧ ∀ a ∈ keys, ∀ b ∈ keys, codePoints a<codePoints b → Gateway.before a b

/-- Lists of the same members under the same names in the same order are the same. -/
theorem eq_of_perm_of_keys (h : ms.Perm ns) (hk : ms.map Prod.fst=ns.map Prod.fst)
    (hn : (ms.map Prod.fst).Nodup) : ms=ns := by
  induction ms generalizing ns with
  | nil => rw [List.nil_perm.mp h]
  | cons m ms ih =>
    cases ns with
    | nil => exact absurd h.symm (by simp)
    | cons n ns =>
      rw [List.map_cons,List.map_cons,List.cons.injEq] at hk
      rw [List.map_cons,List.nodup_cons,hk.2] at hn
      have hmn : m=n := by
        rcases List.mem_cons.mp (h.subset List.mem_cons_self) with hmn|hmn
        · exact hmn
        · exact absurd (List.mem_map_of_mem hmn) hn.1
      subst hmn
      rw [ih h.cons_inv hk.2 (hk.2 ▸ hn.2)]

/-- Two members of a strictly ordered list stand in one order or the other. -/
theorem ordered_of_mem {r : String → String → Prop} {L : List (String × β)}
    (h : L.Pairwise fun a b => r a.1 b.1) {a b : String} (ha : a ∈ L.map Prod.fst)
    (hb : b ∈ L.map Prod.fst) : a=b ∨ r a b ∨ r b a := by
  obtain ⟨x,hx,rfl⟩ := List.mem_map.mp ha
  obtain ⟨y,hy,rfl⟩ := List.mem_map.mp hb
  exact List.Pairwise.forall_of_forall_of_flip
    (R := fun x y : String × β => x.1=y.1 ∨ r x.1 y.1 ∨ r y.1 x.1) (fun x _ => .inl rfl)
    (h.imp fun h => .inr (.inl h)) (h.imp fun h => .inr (.inr h)) hx hy

theorem Gateway.order_of_noProto (h : "__proto__" ∉ ms.map Prod.fst) (hn : (ms.map Prod.fst).Nodup) :
    (ownMembers ((sortBy utf16 ms).filter fun m => m.1 ≠ "__proto__")).Perm ms ∧
      (ownMembers ((sortBy utf16 ms).filter fun m => m.1 ≠ "__proto__")).Pairwise
        fun a b => before a.1 b.1 := by
  have hfilter : (sortBy utf16 ms).filter (fun m => m.1 ≠ "__proto__")=sortBy utf16 ms := by
    refine List.filter_eq_self.mpr fun m hm => ?_
    simp only [ne_eq,decide_not,Bool.not_eq_true',decide_eq_false_iff_not]
    rintro hm'
    exact h (hm' ▸ List.mem_map_of_mem ((sortBy_perm utf16 ms).subset hm))
  rw [hfilter]
  refine ⟨(ownMembers_perm _).trans (sortBy_perm _ _),ownMembers_before ?_ (sortBy_strict utf16_injective hn)⟩
  exact (((sortBy_perm utf16 ms).map Prod.fst).nodup_iff).mpr hn

/-- The two orders print the same members alike just where the names are orderly. -/
theorem assign_eq_sortBy_iff (hk : ms.map Prod.fst=ns.map Prod.fst) (hn : (ms.map Prod.fst).Nodup) :
    Gateway.assign (sortBy utf16 ms)=sortBy codePoints ns ↔ Orderly (ms.map Prod.fst) ∧ ms=ns := by
  have hcp := sortBy_perm codePoints ns
  have hlt := sortBy_strict codePoints_injective (hk ▸ hn)
  unfold Gateway.assign
  constructor
  · intro h
    have hproto : "__proto__" ∉ ms.map Prod.fst := by
      intro hm
      have hperm := (Gateway.ownMembers_perm ((sortBy utf16 ms).filter fun m => m.1 ≠ "__proto__")).map Prod.fst
      rw [h] at hperm
      have hin := ((hcp.map Prod.fst).symm.trans hperm).subset (hk ▸ hm)
      obtain ⟨m,hm,hm'⟩ := List.mem_map.mp hin
      simpa [hm'] using (List.mem_filter.mp hm).2
    obtain ⟨hperm,hbefore⟩ := Gateway.order_of_noProto hproto hn
    rw [h] at hperm hbefore
    refine ⟨⟨hproto,fun a ha b hb hab => ?_⟩,eq_of_perm_of_keys (hperm.symm.trans hcp) hk hn⟩
    have hmem : ∀ {k}, k ∈ ms.map Prod.fst → k ∈ (sortBy codePoints ns).map Prod.fst := fun hk' =>
      (hperm.map Prod.fst).symm.subset hk'
    have hboth := hbefore.and hlt
    rcases ordered_of_mem (r := fun a b => Gateway.before a b ∧ codePoints a<codePoints b) hboth
      (hmem ha) (hmem hb) with rfl|h'|h'
    · exact absurd hab (lt_irrefl _)
    · exact h'.1
    · exact absurd h'.2 (lt_asymm hab)
  · rintro ⟨⟨hproto,horder⟩,rfl⟩
    obtain ⟨hperm,hbefore⟩ := Gateway.order_of_noProto hproto hn
    refine List.Perm.eq_of_pairwise (fun a b _ _ h h' => absurd h' (Gateway.before_asymm h)) hbefore
      (hlt.imp_of_mem fun {a b} ha hb hab => ?_) (hperm.trans hcp.symm)
    exact horder a.1 (List.mem_map_of_mem (hcp.subset ha)) b.1 (List.mem_map_of_mem (hcp.subset hb)) hab

end

/-! Values that are printed alike. -/

/-- Written as an integer, but not as `-0`, that fits 64 bits. -/
def Numeral.Fits (l : Numeral) : Prop :=
  l.Plain ∧ (¬l.negative ∧ l.whole<2^64 ∨ l.negative ∧ 0<l.whole ∧ l.whole ≤ 2^63)

instance (l : Numeral) : Decidable l.Fits := inferInstanceAs (Decidable (_ ∧ _))

/-- The text of a number in the gateway's canonical JSON, and in execd's. -/
def Gateway.numberText (l : Numeral) : Option String := (read l).map Double.text

def Execd.numberText (l : Numeral) : Option String := (read l).map Number.text

/-- JavaScript prints the double that it reads as the integer was written. -/
def Numeral.Echoed (l : Numeral) : Prop := Double.text (Double.round l.value)=toString l.int

instance (l : Numeral) : Decidable l.Echoed := inferInstanceAs (Decidable (_=_))

theorem Numeral.Plain.value {l : Numeral} (h : l.Plain) : l.value=l.int := by
  unfold Numeral.value Numeral.int
  rw [h.1,h.2]
  cases l.negative <;> simp

theorem Numeral.Fits.abs_int_le {l : Numeral} (h : l.Fits) : |l.int| ≤ 2^64 := by
  unfold Numeral.int
  rcases h.2 with ⟨hneg,h⟩|⟨hneg,-,h⟩
  · rw [if_neg hneg,abs_of_nonneg (by omega)]
    omega
  · rw [if_pos hneg,abs_neg,abs_of_nonneg (by omega)]
    omega

/-- JavaScript reads an integer of 64 bits as an integer. -/
theorem Numeral.Fits.isInteger {l : Numeral} (h : l.Fits) :
    Gateway.isInteger (Double.round l.value)=true := by
  obtain ⟨m,hm⟩ := Double.exists_round_intCast h.abs_int_le
  rw [h.1.value,hm]
  simp [Gateway.isInteger]

/-- All integers below `2^53` are echoed. -/
theorem Numeral.Fits.echoed {l : Numeral} (h : l.Fits) (hsafe : l.whole<2^53) : l.Echoed := by
  unfold Numeral.Echoed
  rw [h.1.value]
  refine Double.text_round_intCast ?_
  unfold Numeral.int
  split
  · rw [abs_neg,abs_of_nonneg (by omega)]
    exact_mod_cast hsafe
  · rw [abs_of_nonneg (by omega)]
    exact_mod_cast hsafe

theorem Numeral.Fits.gatewayText {l : Numeral} (h : l.Fits) :
    Gateway.numberText l=some (Double.text (Double.round l.value)) := by
  unfold Gateway.numberText Gateway.read Gateway.parse Gateway.check
  rw [Option.bind_some,if_pos h.isInteger]
  rfl

namespace Tree

/-- The names of the members that are not null. -/
def kept {ν : Type} (ms : List (String × Tree ν)) : List String :=
  (ms.filter fun m => !m.2.isNull).map Prod.fst

/-! Integers that fit and are echoed, and orderly names. -/
mutual

def Shared : Tree Numeral → Prop
  | num l => l.Fits ∧ l.Echoed
  | arr xs => SharedAll xs
  | obj ms => Orderly (kept ms) ∧ SharedMembers ms
  | _ => True

def SharedAll : List (Tree Numeral) → Prop
  | [] => True
  | x::xs => Shared x ∧ SharedAll xs

def SharedMembers : List (String × Tree Numeral) → Prop
  | [] => True
  | (_,x)::ms => Shared x ∧ SharedMembers ms

end
end Tree

theorem Execd.numberText_eq (l : Numeral) :
    Execd.numberText l=if l.Fits then some (toString l.int) else none := by
  obtain ⟨neg,n,fr,ex⟩ := l
  unfold Execd.numberText Execd.read Execd.parse Numeral.Fits
  cases neg <;> simp only [Bool.false_eq_true,not_false_eq_true,true_and,false_and,or_false,
    and_false,not_true_eq_false,false_or,if_false,Numeral.int]
  · split
    · rfl
    · cases Double.round _ <;> rfl
  · split
    · rfl
    · cases Double.round _ <;> rfl

namespace Tree

theorem arrangeMembers_keys {ν μ : Type} {f : ν → Option μ}
    (order : List (String × Tree μ) → List (String × Tree μ)) {ms : List (String × Tree ν)}
    {ns : List (String × Tree μ)} (h : mapNumbersMembers f ms=some ns) :
    (arrangeMembers order ns).map Prod.fst=kept ms := by
  induction ms generalizing ns with
  | nil =>
    rw [mapNumbersMembers] at h
    cases h
    rfl
  | cons m ms ih =>
    obtain ⟨k,x⟩ := m
    rw [mapNumbersMembers] at h
    obtain ⟨y,hy,h⟩ := Option.bind_eq_some_iff.mp h
    obtain ⟨ns,hns,rfl⟩ := Option.map_eq_some_iff.mp h
    rw [arrangeMembers,isNull_mapNumbers hy]
    unfold kept at ih ⊢
    cases hx : x.isNull with
    | true => rw [if_pos rfl,ih hns,List.filter_cons_of_neg (by simp [hx])]
    | false =>
      rw [if_neg (by decide),List.map_cons,ih hns,List.filter_cons_of_pos (by simp [hx]),List.map_cons]

theorem kept_nodup {ν : Type} {ms : List (String × Tree ν)} (h : (ms.map Prod.fst).Nodup) :
    (kept ms).Nodup :=
  (List.filter_sublist.map Prod.fst).nodup h

theorem distinct_null {ν : Type} {x : Tree ν} (h : x.isNull=true) : x=null := by
  cases x <;> first | rfl | cases h

/-! Arranged by the two runtimes, a value is the same just where it is shared. -/
mutual

theorem arrange_eq_iff : ∀ t : Tree Numeral, t.Distinct → ∀ {a b : Tree String},
    t.mapNumbers Gateway.numberText=some a → t.mapNumbers Execd.numberText=some b →
      (a.arrange Gateway.order=b.arrange (sortBy codePoints) ↔ t.Shared)
  | null, _, a, b, ha, hb => by
    rw [mapNumbers] at ha hb
    cases ha
    cases hb
    simp [arrange,Shared]
  | bool c, _, a, b, ha, hb => by
    rw [mapNumbers] at ha hb
    cases ha
    cases hb
    simp [arrange,Shared]
  | str s, _, a, b, ha, hb => by
    rw [mapNumbers] at ha hb
    cases ha
    cases hb
    simp [arrange,Shared]
  | num l, _, a, b, ha, hb => by
    rw [mapNumbers] at ha hb
    obtain ⟨s,hs,rfl⟩ := Option.map_eq_some_iff.mp ha
    obtain ⟨s',hs',rfl⟩ := Option.map_eq_some_iff.mp hb
    rw [Execd.numberText_eq] at hs'
    split at hs'
    · next hfits =>
      cases hs'
      rw [hfits.gatewayText] at hs
      cases hs
      rw [arrange,arrange,Shared,Numeral.Echoed,num.injEq,and_iff_right hfits]
    · cases hs'
  | arr xs, hd, a, b, ha, hb => by
    rw [mapNumbers] at ha hb
    rw [Distinct] at hd
    obtain ⟨as,has,rfl⟩ := Option.map_eq_some_iff.mp ha
    obtain ⟨bs,hbs,rfl⟩ := Option.map_eq_some_iff.mp hb
    rw [arrange,arrange,Shared,arr.injEq]
    exact arrangeAll_eq_iff xs hd has hbs
  | obj ms, hd, a, b, ha, hb => by
    rw [mapNumbers] at ha hb
    rw [Distinct] at hd
    obtain ⟨as,has,rfl⟩ := Option.map_eq_some_iff.mp ha
    obtain ⟨bs,hbs,rfl⟩ := Option.map_eq_some_iff.mp hb
    have hka := arrangeMembers_keys Gateway.order has
    have hkb := arrangeMembers_keys (sortBy codePoints) hbs
    rw [arrange,arrange,Shared,obj.injEq,← arrangeMembers_eq_iff ms hd.2 has hbs,← hka]
    exact assign_eq_sortBy_iff (hka.trans hkb.symm) (hka ▸ kept_nodup hd.1)

theorem arrangeAll_eq_iff : ∀ xs : List (Tree Numeral), DistinctAll xs → ∀ {as bs : List (Tree String)},
    mapNumbersAll Gateway.numberText xs=some as → mapNumbersAll Execd.numberText xs=some bs →
      (arrangeAll Gateway.order as=arrangeAll (sortBy codePoints) bs ↔ SharedAll xs)
  | [], _, as, bs, ha, hb => by
    rw [mapNumbersAll] at ha hb
    cases ha
    cases hb
    simp [arrangeAll,SharedAll]
  | x::xs, hd, as, bs, ha, hb => by
    rw [mapNumbersAll] at ha hb
    rw [DistinctAll] at hd
    obtain ⟨y,hy,ha⟩ := Option.bind_eq_some_iff.mp ha
    obtain ⟨ys,hys,rfl⟩ := Option.map_eq_some_iff.mp ha
    obtain ⟨z,hz,hb⟩ := Option.bind_eq_some_iff.mp hb
    obtain ⟨zs,hzs,rfl⟩ := Option.map_eq_some_iff.mp hb
    rw [arrangeAll,arrangeAll,SharedAll,List.cons.injEq,arrange_eq_iff x hd.1 hy hz,
      arrangeAll_eq_iff xs hd.2 hys hzs]

theorem arrangeMembers_eq_iff : ∀ ms : List (String × Tree Numeral), DistinctMembers ms →
    ∀ {as bs : List (String × Tree String)}, mapNumbersMembers Gateway.numberText ms=some as →
      mapNumbersMembers Execd.numberText ms=some bs →
        (arrangeMembers Gateway.order as=arrangeMembers (sortBy codePoints) bs ↔ SharedMembers ms)
  | [], _, as, bs, ha, hb => by
    rw [mapNumbersMembers] at ha hb
    cases ha
    cases hb
    simp [arrangeMembers,SharedMembers]
  | (k,x)::ms, hd, as, bs, ha, hb => by
    rw [mapNumbersMembers] at ha hb
    rw [DistinctMembers] at hd
    obtain ⟨y,hy,ha⟩ := Option.bind_eq_some_iff.mp ha
    obtain ⟨ys,hys,rfl⟩ := Option.map_eq_some_iff.mp ha
    obtain ⟨z,hz,hb⟩ := Option.bind_eq_some_iff.mp hb
    obtain ⟨zs,hzs,rfl⟩ := Option.map_eq_some_iff.mp hb
    rw [arrangeMembers,arrangeMembers,SharedMembers,isNull_mapNumbers hy,isNull_mapNumbers hz,
      ← arrange_eq_iff x hd.1 hy hz,← arrangeMembers_eq_iff ms hd.2 hys hzs]
    cases hx : x.isNull with
    | true =>
      obtain rfl := distinct_null hx
      rw [mapNumbers] at hy hz
      cases hy
      cases hz
      simp [arrange]
    | false => simp

end
/-! Every number of a shared value fits and is echoed. -/
mutual

theorem Shared.numbers : ∀ t : Tree Numeral, t.Shared → ∀ l ∈ t.numbers, l.Fits ∧ l.Echoed
  | .null, _ => by simp [Tree.numbers]
  | .bool b, _ => by simp [Tree.numbers]
  | .str s, _ => by simp [Tree.numbers]
  | .num l, h => by
    rw [Shared] at h
    simpa [Tree.numbers] using h
  | .arr xs, h => by
    rw [Shared] at h
    rw [Tree.numbers]
    exact SharedAll.numbers xs h
  | .obj ms, h => by
    rw [Shared] at h
    rw [Tree.numbers]
    exact SharedMembers.numbers ms h.2

theorem SharedAll.numbers : ∀ xs : List (Tree Numeral), SharedAll xs →
    ∀ l ∈ numbersAll xs, l.Fits ∧ l.Echoed
  | [], _ => by simp [numbersAll]
  | x::xs, h => by
    rw [SharedAll] at h
    rw [numbersAll,List.forall_mem_append]
    exact ⟨Shared.numbers x h.1,SharedAll.numbers xs h.2⟩

theorem SharedMembers.numbers : ∀ ms : List (String × Tree Numeral), SharedMembers ms →
    ∀ l ∈ numbersMembers ms, l.Fits ∧ l.Echoed
  | [], _ => by simp [numbersMembers]
  | (k,x)::ms, h => by
    rw [SharedMembers] at h
    rw [numbersMembers,List.forall_mem_append]
    exact ⟨Shared.numbers x h.1,SharedMembers.numbers ms h.2⟩

end
end Tree

/-! The numbers that a runtime refuses. -/

/-- JavaScript does not read it as an integer. -/
def Gateway.Refuses (l : Numeral) : Prop := isInteger (Double.round l.value)=false

/-- It is not written as an integer, or too long for the script's reader. -/
def Reference.Refuses (l : Numeral) : Prop :=
  ¬(l.Plain ∧ (Nat.toDigits 10 l.whole).length ≤ maxStrDigits)

/-- Each of the three runtimes refuses some number of the value. -/
def Json.Refused (v : Json) : Prop :=
  (∃ l ∈ v.tree.numbers, Gateway.Refuses l) ∧ (∃ l ∈ v.tree.numbers, ¬l.Fits) ∧
    ∃ l ∈ v.tree.numbers, Reference.Refuses l

theorem Gateway.isSome_read (l : Numeral) : (read l).isSome ↔ ¬Refuses l := by
  unfold read parse check Refuses
  rw [Option.bind_some]
  cases isInteger (Double.round l.value) <;> simp

theorem Execd.isSome_read (l : Numeral) : (read l).isSome ↔ l.Fits := by
  have h := numberText_eq l
  unfold numberText at h
  rw [← Option.isSome_map,h]
  split
  · next hf => simpa using hf
  · next hf => simpa using hf

theorem Reference.isSome_read (l : Numeral) : (read l).isSome ↔ ¬Refuses l := by
  unfold read parse Refuses
  rw [not_not]
  split
  · next hp =>
    split
    · next hd => simp [check,hp,hd]
    · next hd => simp [hd]
  · next hp => simp [check,hp]

/-- What a runtime prints is none just where it refuses a number. -/
theorem printed_isSome {μ : Type} {f : Numeral → Option μ} {g : Tree μ → String} (v : Json) :
    ((v.tree.mapNumbers f).map g).isSome ↔ ∀ l ∈ v.tree.numbers, (f l).isSome := by
  rw [Option.isSome_map,isSome_mapNumbers]

/-- Twenty digits are enough for 64 bits. -/
theorem Numeral.Fits.read {l : Numeral} (h : l.Fits) :
    (Reference.read l).map Reference.Number.text=some (toString l.int) := by
  have hlt : l.whole<10^20 := by
    rcases h.2 with ⟨-,h⟩|⟨-,-,h⟩ <;> omega
  have hlen : (Nat.toDigits 10 l.whole).length ≤ Reference.maxStrDigits := by
    unfold Reference.maxStrDigits
    have := (Nat.length_toDigits_le_iff (b := 10) (n := l.whole) (k := 20) (by decide) (by decide)).mpr hlt
    omega
  rw [Reference.read,Reference.parse,if_pos h.1,if_pos hlen]
  rfl

/-- The script prints what execd prints. -/
theorem reference_of_execd {v : Json} (h : ∀ l ∈ v.tree.numbers, l.Fits) :
    Reference.canonical v=Execd.canonicalJson v := by
  have hmap : (v.tree.mapNumbers Reference.read).map (map Reference.Number.text) =
      (v.tree.mapNumbers Execd.read).map (map Execd.Number.text) := by
    rw [← mapNumbers_text,← mapNumbers_text]
    refine mapNumbers_congr _ fun l hl => ?_
    rw [(h l hl).read]
    exact ((Execd.numberText_eq l).trans (if_pos (h l hl))).symm
  have hprint : ∀ {μ : Type} (f : μ → String) (x : Option (Tree μ)),
      x.map (fun t => (t.arrange (sortBy codePoints)).text f) =
        (x.map (map f)).map fun t => (t.arrange (sortBy codePoints)).text id := by
    intro μ f x
    cases x with
    | none => rfl
    | some t =>
      rw [Option.map_some,Option.map_some,Option.map_some,← arrange_map (map_sortBy codePoints f) t,
        text_map]
  rw [Reference.canonical_eq,Execd.canonicalJson_eq,hprint,hmap,← hprint]

/-- Execd and the gateway print a value alike just where it is shared. -/
theorem gateway_eq_execd_iff {v : Json} {a : Tree Js.Num} {b : Tree Execd.Number}
    (ha : v.tree.mapNumbers Gateway.read=some a) (hb : v.tree.mapNumbers Execd.read=some b) :
    Gateway.canonicalJson v=Execd.canonicalJson v ↔ v.tree.Shared := by
  have ha' : v.tree.mapNumbers Gateway.numberText=some (a.map Double.text) := by
    rw [← Option.map_some,← ha,← mapNumbers_text]
    rfl
  have hb' : v.tree.mapNumbers Execd.numberText=some (b.map Execd.Number.text) := by
    rw [← Option.map_some,← hb,← mapNumbers_text]
    rfl
  have hga : (a.arrange Gateway.order).map Double.text=(a.map Double.text).arrange Gateway.order := by
    refine arrange_map (fun ms => ?_) a
    rw [Gateway.order,Gateway.map_assign,map_sortBy]
    rfl
  rw [Gateway.canonicalJson_eq,Execd.canonicalJson_eq,ha,hb,Option.map_some,Option.map_some,
    Option.some.injEq,text_eq_iff numeric_double numeric_number,hga,
    arrange_map (map_sortBy codePoints _) b]
  exact arrange_eq_iff v.tree v.distinct ha' hb'

/-- The three canonical forms of a value agree just where each runtime refuses one of its numbers,
or every number is an integer that fits and is echoed, and the names are orderly in every object. -/
theorem canonical_agree_iff (v : Json) :
    Gateway.canonicalJson v=Execd.canonicalJson v ∧ Execd.canonicalJson v=Reference.canonical v ↔
      v.Refused ∨ v.tree.Shared := by
  have hg : (Gateway.canonicalJson v).isSome ↔ ∀ l ∈ v.tree.numbers, ¬Gateway.Refuses l := by
    rw [Gateway.canonicalJson_eq,printed_isSome]
    simp only [Gateway.isSome_read]
  have he : (Execd.canonicalJson v).isSome ↔ ∀ l ∈ v.tree.numbers, l.Fits := by
    rw [Execd.canonicalJson_eq,printed_isSome]
    simp only [Execd.isSome_read]
  have hr : (Reference.canonical v).isSome ↔ ∀ l ∈ v.tree.numbers, ¬Reference.Refuses l := by
    rw [Reference.canonical_eq,printed_isSome]
    simp only [Reference.isSome_read]
  by_cases hf : ∀ l ∈ v.tree.numbers, l.Fits
  · -- execd and the script accept the value, so the gateway has to print the same
    have hno : ¬v.Refused := fun h => by
      obtain ⟨l,hl,hn⟩ := h.2.1
      exact hn (hf l hl)
    obtain ⟨b,hb⟩ := Option.isSome_iff_exists.mp ((isSome_mapNumbers Execd.read v.tree).mpr
      fun l hl => (Execd.isSome_read l).mpr (hf l hl))
    rw [reference_of_execd hf,and_iff_left rfl,or_iff_right hno]
    cases ha : v.tree.mapNumbers Gateway.read with
    | some a => exact gateway_eq_execd_iff ha hb
    | none =>
      rw [Gateway.canonicalJson_eq,Execd.canonicalJson_eq,ha,hb]
      refine ⟨nofun,fun hs => ?_⟩
      have hall := (isSome_mapNumbers Gateway.read v.tree).mpr fun l hl => by
        rw [Gateway.isSome_read,Gateway.Refuses,(hf l hl).isInteger]
        decide
      rw [ha] at hall
      cases hall
  · -- execd refuses the value, so the others have to refuse it too
    have hnone : Execd.canonicalJson v=none := by
      rw [← Option.not_isSome_iff_eq_none,he]
      exact hf
    have hno : ¬v.tree.Shared := fun h => hf fun l hl => (Shared.numbers v.tree h l hl).1
    rw [hnone,or_iff_left hno,← Option.not_isSome_iff_eq_none,hg,eq_comm (a := none),
      ← Option.not_isSome_iff_eq_none,hr]
    unfold Json.Refused
    push Not at hf ⊢
    exact ⟨fun h => ⟨h.1,hf,h.2⟩,fun h => ⟨h.1,h.2.2⟩⟩

/-- Array indices come first in the gateway's text. -/
def reordered : Json :=
  ⟨.obj [("10",.num { whole := 1 }),("9",.num { whole := 2 })],by simp [Distinct,DistinctMembers]⟩

theorem reordered_differs :
    Gateway.canonicalJson reordered=some "\x7b\"9\":2,\"10\":1\x7d" ∧
      Execd.canonicalJson reordered=some "\x7b\"10\":1,\"9\":2\x7d" ∧
      ¬(Gateway.canonicalJson reordered=Execd.canonicalJson reordered ∧
        Execd.canonicalJson reordered=Reference.canonical reordered) := by
  have hg : Gateway.canonicalJson reordered=some "\x7b\"9\":2,\"10\":1\x7d" := by decide +kernel
  have he : Execd.canonicalJson reordered=some "\x7b\"10\":1,\"9\":2\x7d" := by decide +kernel
  refine ⟨hg,he,fun h => ?_⟩
  rw [hg,he] at h
  exact absurd h.1 (by decide)

end TradeGate.Canonical
