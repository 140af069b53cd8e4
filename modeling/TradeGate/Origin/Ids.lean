import TradeGate.Model.ClientOrderId
import TradeGate.Number.Print

/-! Whose an order is, by its client order id: the ids that are made here against the classifiers. -/
namespace TradeGate.OrderId

/-- The text of the parts of an id. -/
def formed (intent12 : List Char) (code : Char) (legIndex attemptNo : List Char) : String :=
  String.ofList (localPrefix.toList++(intent12++ '-'::(code::legIndex++ '-'::attemptNo)))

/-- The id has the form of the contract: twelve lower hexadecimal digits, the letter of a leg, and two
numbers below 2^32. -/
def WellFormed (id : String) : Prop :=
  ∃ intent12 legIndex attemptNo, ∃ leg : Leg, id=formed intent12 leg.code legIndex attemptNo ∧
    (intent12.length=12 ∧ ∀ c ∈ intent12, isLowerHex c=true) ∧
    (Rust.parseUnsigned (2^32) legIndex).isSome ∧ (Rust.parseUnsigned (2^32) attemptNo).isSome

theorem find_code (leg : Leg) : Leg.all.find? (fun l => l.code=leg.code)=some leg := by
  cases leg <;> rfl

theorem not_hyphen_of_parse {limit : ℕ} {cs : List Char} (h : (Rust.parseUnsigned limit cs).isSome) :
    '-' ∉ cs := by
  intro hc
  obtain h|h := Rust.plain_of_parse h '-' hc <;> cases h

theorem not_hyphen_of_isLowerHex {cs : List Char} (h : ∀ c ∈ cs, isLowerHex c=true) : '-' ∉ cs :=
  fun hc => by cases h '-' hc

theorem prefixed_formed (i : List Char) (code : Char) (x y : List Char) :
    prefixed (formed i code x y)=true := by
  rw [prefixed,formed,String.toList_ofList]
  exact List.isPrefixOf_iff_prefix.mpr (List.prefix_append ..)

theorem drop_formed (i : List Char) (code : Char) (x y : List Char) :
    (formed i code x y).toList.drop localPrefix.length=i++ '-'::(code::x++ '-'::y) := by
  rw [formed,String.toList_ofList]
  exact List.drop_left

/-- A text with the mark in it splits into more than one part. -/
theorem two_le_length_splitOn {a : Char} {cs : List Char} (h : a ∈ cs) : 2 ≤ (cs.splitOn a).length := by
  obtain ⟨xs,ys,rfl⟩ := List.append_of_mem h
  rw [List.splitOn_append_cons_self,List.length_append]
  have hx := List.length_pos_of_ne_nil (List.splitOn_ne_nil a xs)
  have hy := List.length_pos_of_ne_nil (List.splitOn_ne_nil a ys)
  omega

/-- What is read of an id whose first part has no hyphen. -/
theorem parseLocal_formed {i x y : List Char} {leg : Leg} (hi : '-' ∉ i) :
    (parseLocal (formed i leg.code x y)).isSome ↔ (i.length=12 ∧ ∀ c ∈ i, isLowerHex c=true) ∧
      (Rust.parseUnsigned (2^32) x).isSome ∧ (Rust.parseUnsigned (2^32) y).isSome := by
  have hsplit : ((formed i leg.code x y).toList.drop localPrefix.length).splitOn '-' =
      i::((leg.code::x).splitOn '-' ++y.splitOn '-') := by
    rw [drop_formed,List.splitOn_append_cons_self_of_not_mem hi,List.splitOn_append_cons_self]
  rw [parseLocal,if_pos (prefixed_formed ..),hsplit]
  by_cases hxy : '-' ∈ leg.code::x ∨ '-' ∈ y
  · have hlen : 3 ≤ ((leg.code::x).splitOn '-' ++y.splitOn '-').length := by
      rw [List.length_append]
      have hx₁ := List.length_pos_of_ne_nil (List.splitOn_ne_nil '-' (leg.code::x))
      have hy₁ := List.length_pos_of_ne_nil (List.splitOn_ne_nil '-' y)
      obtain hx|hy := hxy
      · have := two_le_length_splitOn hx
        omega
      · have := two_le_length_splitOn hy
        omega
    constructor
    · intro h
      split at h
      · rename_i heq
        rw [List.cons.inj heq |>.2] at hlen
        simp at hlen
      · cases h
    · rintro ⟨-,hx',hy'⟩
      obtain hx|hy := hxy
      · obtain hc|hx := List.mem_cons.mp hx
        · cases leg <;> cases hc
        · exact absurd hx (not_hyphen_of_parse hx')
      · exact absurd hy (not_hyphen_of_parse hy')
  · obtain ⟨hx,hy⟩ := not_or.mp hxy
    rw [List.splitOn_eq_singleton hx,List.splitOn_eq_singleton hy]
    have hall : i.all isLowerHex=true ↔ ∀ c ∈ i, isLowerHex c=true := List.all_eq_true
    simp only [List.singleton_append,find_code,hall]
    by_cases hg : i.length=12 ∧ ∀ c ∈ i, isLowerHex c=true
    · rw [guard,if_pos hg,and_iff_right hg]
      cases Rust.parseUnsigned (2^32) x <;> cases Rust.parseUnsigned (2^32) y <;> simp
    · rw [guard,if_neg hg]
      simp only [hg,false_and,iff_false]
      rintro ⟨⟩

/-- An id is read if and only if it has the form of the contract. -/
theorem parseLocal_isSome_iff {id : String} : (parseLocal id).isSome ↔ WellFormed id := by
  constructor
  · intro h
    have hparse := h
    rw [parseLocal] at hparse
    split_ifs at hparse with hp
    · split at hparse
      · rename_i i code x y hsplit
        obtain ⟨parsed,hparsed⟩ := Option.isSome_iff_exists.mp hparse
        obtain ⟨_,hguard,hparsed⟩ := Option.bind_eq_some_iff.mp hparsed
        obtain ⟨leg,hleg,-⟩ := Option.bind_eq_some_iff.mp hparsed
        have hcode : leg.code=code := by simpa using List.find?_some hleg
        have hi : '-' ∉ i := by
          by_cases hg : i.length=12 ∧ i.all isLowerHex=true
          · exact not_hyphen_of_isLowerHex (List.all_eq_true.mp hg.2)
          · rw [guard,if_neg hg] at hguard
            cases hguard
        have hid : id=formed i leg.code x y := by
          obtain ⟨cs,hcs⟩ := List.isPrefixOf_iff_prefix.mp hp
          have hjoin : ['-'].intercalate ((id.toList.drop localPrefix.length).splitOn '-') = _ :=
            List.intercalate_splitOn '-'
          rw [hsplit,← hcs] at hjoin
          refine String.toList_injective ?_
          rw [formed,String.toList_ofList,← hcs,hcode]
          have hdrop : (localPrefix.toList++cs).drop localPrefix.length=cs := List.drop_left
          rw [hdrop] at hjoin
          simp [← hjoin,List.intercalate]
        rw [hid] at h ⊢
        exact ⟨i,x,y,leg,rfl,(parseLocal_formed hi).mp h⟩
      · cases hparse
    · cases hparse
  · rintro ⟨i,x,y,leg,rfl,h⟩
    exact (parseLocal_formed (not_hyphen_of_isLowerHex h.1.2)).mpr h

theorem WellFormed.prefixed {id : String} (h : WellFormed id) : prefixed id=true := by
  obtain ⟨i,x,y,leg,rfl,-⟩ := h
  exact prefixed_formed ..

theorem classifyOrderOrigin_eq_local {id : String} :
    classifyOrderOrigin (some id)=.localOrder ↔ WellFormed id := by
  rw [← parseLocal_isSome_iff,classifyOrderOrigin]
  by_cases hid : id=""
  · subst hid
    rw [if_pos rfl]
    exact iff_of_false (by rintro ⟨⟩) (by rintro ⟨⟩)
  · rw [if_neg hid]
    split_ifs with h
    · exact iff_of_true rfl h
    · exact iff_of_false (by rintro ⟨⟩) h

/-- Each classifier calls the order local. -/
def EveryLocal (id : String) : Prop :=
  classifyOrderOrigin (some id)=.localOrder ∧ originByPrefix id=.localOrder ∧
    ExecCore.isLocal id=true ∧ ExecCore.isForeign id=false

theorem everyLocal_iff {id : String} : EveryLocal id ↔ WellFormed id := by
  constructor
  · rintro ⟨h,-⟩
    exact classifyOrderOrigin_eq_local.mp h
  · intro h
    have hp := h.prefixed
    refine ⟨classifyOrderOrigin_eq_local.mpr h,if_pos hp,hp,?_⟩
    rw [ExecCore.isForeign,ExecCore.isLocal,hp]
    rfl

/-- The two classifiers of the contracts agree on the ids that are not empty and, where they have the
prefix, have the form. -/
theorem same_origin_iff (id : String) : classifyOrderOrigin (some id)=originByPrefix id ↔
    id ≠ "" ∧ (prefixed id=true → WellFormed id) := by
  by_cases hid : id=""
  · subst hid
    refine iff_of_false ?_ fun h => h.1 rfl
    rintro ⟨⟩
  · rw [and_iff_right hid,originByPrefix]
    split_ifs with hp
    · rw [classifyOrderOrigin_eq_local]
      exact ⟨fun h _ => h,fun h => h hp⟩
    · refine iff_of_true ?_ fun h => absurd h hp
      have hn : ¬(parseLocal id).isSome := fun h => hp (parseLocal_isSome_iff.mp h).prefixed
      rw [classifyOrderOrigin,if_neg hid,if_neg hn]

/-! What is made here. -/

theorem uuidChar_of_valid (u : Uuid) {i : ℕ} {c : Char} (h : u.text.toList[i]?=some c) :
    uuidChar i c=true := by
  have hv := u.valid
  rw [validUuid,Bool.and_eq_true] at hv
  exact List.all_eq_true.mp hv.2 (c,i) (List.mem_zipIdx_iff_getElem?.mpr h)

/-- The digits of a UUID between two of its hyphens. -/
theorem isLowerHex_of_mem (u : Uuid) {n k : ℕ} (hk : n+k ≤ 8 ∨ 9 ≤ n ∧ n+k ≤ 13) {c : Char}
    (h : c ∈ (u.text.toList.drop n).take k) : isLowerHex c=true := by
  obtain ⟨i,hi,rfl⟩ := List.mem_iff_getElem.mp h
  have hik : i<k := lt_of_lt_of_le hi (by rw [List.length_take]; exact min_le_left ..)
  have hin : n+i<u.text.toList.length := by
    rw [List.length_take,List.length_drop] at hi
    omega
  have hc := uuidChar_of_valid u (List.getElem?_eq_getElem hin)
  rw [List.getElem_take,List.getElem_drop]
  rwa [uuidChar,if_neg (by omega),if_neg (by omega),if_neg (by omega)] at hc

theorem filter_of_isLowerHex {cs : List Char} (h : ∀ c ∈ cs, isLowerHex c=true) :
    (cs.filter fun c => c ≠ '-')=cs := by
  refine List.filter_eq_self.mpr fun c hc => ?_
  have hne : c ≠ '-' := by
    rintro rfl
    cases h '-' hc
  simpa using hne

theorem short12_spec (u : Uuid) : u.short12.length=12 ∧ ∀ c ∈ u.short12, isLowerHex c=true := by
  have hlen : u.text.toList.length=36 := by
    have hv := u.valid
    rw [validUuid,Bool.and_eq_true] at hv
    simpa using hv.1
  have hhyphen : u.text.toList[8]= '-' := by
    simpa [uuidChar] using uuidChar_of_valid u (List.getElem?_eq_getElem (l := u.text.toList) (i := 8) (by omega))
  have hrest : u.text.toList.drop 9=(u.text.toList.drop 9).take 4++u.text.toList.drop 13 := by
    have := (List.take_append_drop 4 (u.text.toList.drop 9)).symm
    rwa [List.drop_drop] at this
  have hsplit : u.text.toList=u.text.toList.take 8++ '-'::u.text.toList.drop 9 := by
    rw [← hhyphen,← List.drop_eq_getElem_cons]
    exact (List.take_append_drop 8 u.text.toList).symm
  have ha : ∀ c ∈ u.text.toList.take 8, isLowerHex c=true := fun c hc =>
    isLowerHex_of_mem u (n := 0) (k := 8) (.inl le_rfl) (by rwa [List.drop_zero])
  have hb : ∀ c ∈ (u.text.toList.drop 9).take 4, isLowerHex c=true := fun c hc =>
    isLowerHex_of_mem u (n := 9) (k := 4) (.inr ⟨le_rfl,le_rfl⟩) hc
  have hshort : u.short12=u.text.toList.take 8++(u.text.toList.drop 9).take 4 := by
    have hfilter : (u.text.toList.filter fun c => c ≠ '-')=u.text.toList.take 8++
        ((u.text.toList.drop 9).take 4++(u.text.toList.drop 13).filter fun c => c ≠ '-') := by
      conv_lhs => rw [hsplit,List.filter_append,filter_of_isLowerHex ha,
        List.filter_cons_of_neg (by simp),hrest,List.filter_append,filter_of_isLowerHex hb]
    rw [Uuid.short12,hfilter,← List.append_assoc]
    exact List.take_left' (by simp [hlen])
  rw [hshort]
  refine ⟨by simp [hlen],fun c hc => ?_⟩
  obtain hc|hc := List.mem_append.mp hc
  · exact ha c hc
  · exact hb c hc

theorem clientOrderId_wellFormed {u : Uuid} {leg : Leg} {legIndex attemptNo : UInt32} {id : String}
    (h : clientOrderId u leg legIndex attemptNo=.ok id) : WellFormed id := by
  have hread : ∀ n : UInt32, (Rust.parseUnsigned (2^32) (toString n.toNat).toList).isSome := by
    intro n
    rw [Rust.parseUnsigned_natText,if_pos n.toNat_lt]
    rfl
  rw [clientOrderId] at h
  split_ifs at h
  refine ⟨_,_,_,leg,?_,short12_spec u,hread legIndex,hread attemptNo⟩
  rw [← Except.ok.inj h]
  refine String.toList_injective ?_
  simp [formed]

theorem capital_toLower : ∀ n ∈ List.range 26,
    isLowerHex (Char.ofNat (65+n)).toLower=isHex (Char.ofNat (65+n)) ∧
      (Char.ofNat (65+n)).toLower ≠ '-' := by decide

theorem toLower_spec (c : Char) : isLowerHex c.toLower=isHex c ∧ (c.toLower= '-' → c= '-') := by
  by_cases h : 65 ≤ c.toNat ∧ c.toNat ≤ 90
  · have hc := capital_toLower (c.toNat-65) (by rw [List.mem_range]; omega)
    rw [show 65+(c.toNat-65)=c.toNat by omega,Char.ofNat_toNat] at hc
    exact ⟨hc.1,fun heq => absurd heq hc.2⟩
  · have hc : c.toLower=c := by
      refine dif_neg ?_
      simpa [UInt32.le_iff_toNat_le] using h
    have hu : ('A' ≤ c && c ≤ 'F')=false := by
      simp [Char.le_def,UInt32.le_iff_toNat_le] at h ⊢
      omega
    rw [hc,isHex,hu,Bool.or_false]
    exact ⟨rfl,id⟩

theorem width_of_isLowerHex {c : Char} (h : isLowerHex c=true) : Js.width c=1 := by
  have hle : c.toNat ≤ 102 := by
    rw [isLowerHex,Bool.or_eq_true] at h
    obtain h|h := h
    · exact (Js.toNat_of_isDigit h).2.trans (by decide)
    · simp [Char.le_def,UInt32.le_iff_toNat_le] at h
      exact h.2
  exact if_pos (by omega)

theorem mem_sliceChars {n : ℕ} {cs : List Char} {c : Char} (h : c ∈ Js.sliceChars n cs) : c ∈ cs := by
  induction cs generalizing n with
  | nil => cases h
  | cons d cs ih =>
    rw [Js.sliceChars] at h
    split_ifs at h
    · obtain rfl|h := List.mem_cons.mp h
      · exact List.mem_cons_self
      · exact List.mem_cons_of_mem _ (ih h)
    · cases h

/-- The first digits of a text, and those of the text in small letters. -/
theorem slice_lower_iff (n : ℕ) (cs : List Char) :
    ((Js.sliceChars n (cs.flatMap lowerChar)).length=n ∧
      ∀ c ∈ Js.sliceChars n (cs.flatMap lowerChar), isLowerHex c=true) ↔
        (cs.take n).length=n ∧ ∀ c ∈ cs.take n, isHex c=true := by
  induction cs generalizing n with
  | nil => simp [Js.sliceChars]
  | cons c cs ih =>
    cases n with
    | zero =>
      have hnone : ∀ ds, Js.sliceChars 0 ds=[] := by
        intro ds
        cases ds with
        | nil => rfl
        | cons d ds =>
          refine if_neg ?_
          rw [Js.width]
          split_ifs <;> decide
      simp [hnone]
    | succ n =>
      have hfirst : ∃ d ds, lowerChar c=d::ds ∧ isLowerHex d=isHex c ∧ (isHex c=true → ds=[]) := by
        rw [lowerChar]
        split_ifs with h₁ h₂
        · refine ⟨_,_,rfl,?_,fun hc => ?_⟩
          · rw [← Char.ofNat_toNat c,h₁]
            decide
          · rw [← Char.ofNat_toNat c,h₁] at hc
            cases hc
        · refine ⟨_,_,rfl,?_,fun _ => rfl⟩
          rw [← Char.ofNat_toNat c,h₂]
          decide
        · exact ⟨_,_,rfl,(toLower_spec c).1,fun _ => rfl⟩
      obtain ⟨d,ds,hlow,hd,hds⟩ := hfirst
      rw [List.flatMap_cons,hlow,List.cons_append,Js.sliceChars,List.take_succ_cons]
      cases hc : isHex c with
      | true =>
        rw [hc] at hd
        rw [hds hc,List.nil_append,width_of_isLowerHex hd,if_pos (by omega),Nat.add_sub_cancel,
          List.length_cons,List.length_cons,List.forall_mem_cons,List.forall_mem_cons]
        have := ih n
        simp only [hd,hc,true_and,Nat.add_right_cancel_iff]
        exact this
      | false =>
        rw [hc] at hd
        refine iff_of_false ?_ ?_
        · rintro ⟨hlen,hall⟩
          split_ifs at hlen hall
          rw [hall d List.mem_cons_self] at hd
          cases hd
        · rintro ⟨-,hall⟩
          rw [hall c List.mem_cons_self] at hc
          cases hc

/-- Without its hyphens, the id of the intent starts with twelve hexadecimal digits. -/
def HexStart (intentId : String) : Prop :=
  let cs := (intentId.toList.filter fun c => c ≠ '-').take 12
  cs.length=12 ∧ ∀ c ∈ cs, isHex c=true

/-- The number is an integer of 32 bits. -/
def Word32 (x : Js.Num) : Prop := ∃ n : ℕ, n<2^32 ∧ x=.fin n

theorem not_hyphen_intent12 (p : ClientOrderIdParams) : '-' ∉ p.intent12 := by
  intro h
  obtain ⟨c,hc,hlow⟩ := List.mem_flatMap.mp (mem_sliceChars h)
  have hne : c ≠ '-' := by simpa using (List.mem_filter.mp hc).2
  rw [lowerChar] at hlow
  split_ifs at hlow
  · simp at hlow
  · simp at hlow
  · exact hne ((toLower_spec c).2 (List.mem_singleton.mp hlow).symm)

theorem params_wellFormed_iff {p : ClientOrderIdParams} {id : String} (h : p.clientOrderId=.ok id) :
    WellFormed id ↔ HexStart p.intentId ∧ Word32 p.legIndex ∧ Word32 p.attemptNo := by
  have hid : id=formed p.intent12 p.leg.code (Double.text p.legIndex).toList (Double.text p.attemptNo).toList := by
    rw [ClientOrderIdParams.clientOrderId] at h
    split_ifs at h
    rw [← Except.ok.inj h]
    refine String.toList_injective ?_
    simp [formed]
  have hnum : ∀ {x}, Double.Exact x →
      ((Rust.parseUnsigned (2^32) (Double.text x).toList).isSome ↔ Word32 x) :=
    fun hx => Double.parse_text_iff hx (by decide)
  rw [hid,← parseLocal_isSome_iff,parseLocal_formed (not_hyphen_intent12 p),hnum p.legIndexExact,
    hnum p.attemptNoExact]
  exact and_congr_left fun _ => slice_lower_iff 12 _

theorem execCore_not_wellFormed {intentId : String} {leg : ExecCore.Leg} {attempt : UInt32}
    {id : ExecCore.ClientOrderId} (h : ExecCore.ClientOrderId.new intentId leg attempt=.ok id) :
    ¬WellFormed id.text := by
  have hleg : ∃ l : Leg, l.code=leg.code := by
    cases leg with
    | entry => exact ⟨.entry,rfl⟩
    | stop => exact ⟨.stop,rfl⟩
    | takeProfit => exact ⟨.takeProfit,rfl⟩
    | close => exact ⟨.cancel,rfl⟩
    | extra => exact ⟨.close,rfl⟩
  obtain ⟨l,hl⟩ := hleg
  rw [ExecCore.ClientOrderId.new] at h
  split_ifs at h
  have hprefix : '-' ∉ id.intentPrefix := by
    rw [← Except.ok.inj h]
    intro hc
    obtain hc|hc := List.mem_append.mp hc
    · obtain ⟨c,hc,hlow⟩ := List.mem_map.mp (List.mem_of_mem_take hc)
      rw [(toLower_spec c).2 hlow] at hc
      cases (List.mem_filter.mp hc).2
    · cases List.eq_of_mem_replicate hc
  have htext : id.text=formed id.intentPrefix l.code [] (toString id.attempt.toNat).toList := by
    rw [hl,← Except.ok.inj h]
    refine String.toList_injective ?_
    simp [formed,ExecCore.ClientOrderId.text]
  rw [htext,← parseLocal_isSome_iff,parseLocal_formed hprefix]
  rintro ⟨-,⟨⟩,-⟩

theorem nextLegCid_not_wellFormed [Host] (t : StrategyThread) (leg : TradeGate.Leg) :
    ¬WellFormed (nextLegCid t leg).1 := by
  intro h
  have hp := h.prefixed
  simp [OrderId.prefixed,nextLegCid,threadClientPrefix,localPrefix] at hp

/-- The calls that make a client order id. -/
inductive Generator
  | contractsRs (intentId : Uuid) (leg : Leg) (legIndex attemptNo : UInt32)
  | contractsTs (p : ClientOrderIdParams)
  | execCore (intentId : String) (leg : ExecCore.Leg) (attempt : UInt32)
  | gateway (t : StrategyThread) (leg : TradeGate.Leg)

namespace Generator

/-- The id, if the call yields one. -/
def id [Host] : Generator → Option String
  | contractsRs intentId leg legIndex attemptNo => (clientOrderId intentId leg legIndex attemptNo).toOption
  | contractsTs p => p.clientOrderId.toOption
  | execCore intentId leg attempt =>
    (ExecCore.ClientOrderId.new intentId leg attempt).toOption.map ExecCore.ClientOrderId.text
  | gateway t leg => some (nextLegCid t leg).1

/-- The ids of the contracts: in Rust all of them, in TypeScript those of an intent that starts with
hexadecimal digits, with numbers of 32 bits. -/
def Agreed : Generator → Prop
  | contractsRs .. => True
  | contractsTs p => HexStart p.intentId ∧ Word32 p.legIndex ∧ Word32 p.attemptNo
  | execCore .. | gateway .. => False

theorem eq_ok_of_toOption {ε α : Type} {x : Except ε α} {a : α} (h : x.toOption=some a) : x=.ok a := by
  cases x with
  | error e => cases h
  | ok b => rw [Option.some.inj h]

theorem wellFormed_iff [Host] {g : Generator} {id : String} (h : g.id=some id) :
    WellFormed id ↔ g.Agreed := by
  cases g with
  | contractsRs intentId leg legIndex attemptNo =>
    have hmade := eq_ok_of_toOption (x := clientOrderId intentId leg legIndex attemptNo) h
    exact iff_of_true (clientOrderId_wellFormed hmade) trivial
  | contractsTs p => exact params_wellFormed_iff (eq_ok_of_toOption (x := p.clientOrderId) h)
  | execCore intentId leg attempt =>
    obtain ⟨made,hmade,rfl⟩ := Option.map_eq_some_iff.mp h
    exact iff_of_false (execCore_not_wellFormed (eq_ok_of_toOption hmade)) (by rintro ⟨⟩)
  | gateway t leg =>
    obtain rfl := Option.some.inj h
    exact iff_of_false (nextLegCid_not_wellFormed t leg) (by rintro ⟨⟩)

end Generator

/-- An id made here is local to every classifier just when it is one of the contracts, and the two
classifiers of the contracts agree on an id just when it is not empty and, where it has the prefix, has
the form. -/
theorem origins_agree_iff [Host] :
    (∀ (g : Generator) (id : String), g.id=some id → (EveryLocal id ↔ g.Agreed)) ∧
      ∀ id : String, classifyOrderOrigin (some id)=originByPrefix id ↔
        id ≠ "" ∧ (prefixed id=true → WellFormed id) :=
  ⟨fun _ _ h => everyLocal_iff.trans (Generator.wellFormed_iff h),same_origin_iff⟩

/-- A digest that keeps the text. -/
@[reducible] def textDigest : Host where
  sha1Hex s := s
  sha256Hex s := s
  id := longerId
  id_fresh := longerId_fresh

def sampleIntent : Uuid := ⟨"0f8fad5b-d9cb-469f-a165-70867728950e",by decide⟩

theorem sample_everyLocal : EveryLocal "tg-0f8fad5bd9cb-t1-2" := by
  have hid : @Generator.id textDigest (.contractsRs sampleIntent .takeProfit 1 2) =
      some "tg-0f8fad5bd9cb-t1-2" := by decide +kernel
  exact ((@origins_agree_iff textDigest).1 _ _ hid).mpr trivial

/-- The ids of the execution core are foreign to the contracts, which disagree on others by themselves. -/
theorem origins_disagree :
    (¬∀ (_ : Host) (g : Generator) (id : String), g.id=some id → EveryLocal id) ∧
      ¬∀ id : String, classifyOrderOrigin (some id)=originByPrefix id := by
  constructor
  · intro h
    have hid : @Generator.id textDigest (.execCore "abcdef012345" .entry 1) =
        some "tg-abcdef012345-e-1" := by decide +kernel
    have hforeign : classifyOrderOrigin (some "tg-abcdef012345-e-1")=.foreign := by decide +kernel
    have hlocal := (h textDigest _ _ hid).1
    rw [hforeign] at hlocal
    cases hlocal
  · intro h
    have hzz : classifyOrderOrigin (some "tg-zz")=.foreign ∧ originByPrefix "tg-zz"=.localOrder := by
      decide +kernel
    have := h "tg-zz"
    rw [hzz.1,hzz.2] at this
    cases this

end TradeGate.OrderId
