import TradeGate.Number.Numeral
import TradeGate.Origin.Ids

/-! Client order ids that are read against those that are made. -/
namespace TradeGate.OrderId

/-- The parts of an id that are read as numbers. -/
def numbers (id : String) : List (List Char) :=
  match (id.toList.drop localPrefix.length).splitOn '-' with
  | [_,_::legIndex,attemptNo] => [legIndex,attemptNo]
  | _ => []

section
variable {i x y : List Char} {c : Char}

theorem splitOn_formed (hi : '-' ∉ i) (hc : c ≠ '-') (hx : '-' ∉ x) (hy : '-' ∉ y) :
    ((formed i c x y).toList.drop localPrefix.length).splitOn '-' =[i,c::x,y] := by
  have hcx : '-' ∉ c::x := by
    rw [List.mem_cons,not_or]
    exact ⟨Ne.symm hc,hx⟩
  rw [drop_formed,List.splitOn_append_cons_self_of_not_mem hi,List.splitOn_append_cons_self_of_not_mem hcx,
    List.splitOn_eq_singleton hy]

theorem formed_inj {x' y' : List Char} (hi : '-' ∉ i) (hc : c ≠ '-') (hx : '-' ∉ x) (hy : '-' ∉ y)
    (hx' : '-' ∉ x') (hy' : '-' ∉ y') : formed i c x y=formed i c x' y' ↔ x=x' ∧ y=y' := by
  constructor
  · intro h
    have hs := splitOn_formed hi hc hx hy
    rw [h,splitOn_formed hi hc hx' hy'] at hs
    simpa [eq_comm] using hs
  · rintro ⟨rfl,rfl⟩
    rfl

/-- An id with three parts is put together of them. -/
theorem formed_of_splitOn {id : String} (hp : prefixed id=true)
    (hs : (id.toList.drop localPrefix.length).splitOn '-' =[i,c::x,y]) : id=formed i c x y := by
  obtain ⟨cs,hcs⟩ := List.isPrefixOf_iff_prefix.mp hp
  have hjoin : ['-'].intercalate ((id.toList.drop localPrefix.length).splitOn '-') = _ :=
    List.intercalate_splitOn '-'
  have hdrop : (localPrefix.toList++cs).drop localPrefix.length=cs := List.drop_left
  rw [hs,← hcs,hdrop] at hjoin
  apply String.toList_injective
  rw [formed,String.toList_ofList,← hcs]
  simp [← hjoin,List.intercalate]

end

theorem not_hyphen_natText (n : ℕ) : '-' ∉ (toString n).toList := by
  intro h
  cases Js.isDigit_of_mem_natText h

/-! The contracts. -/

theorem text_eq_formed (p : ParsedClientOrderId) : p.text=formed p.intent12.toList p.leg.code
    (toString p.legIndex).toList (toString p.attemptNo).toList := by
  apply String.toList_injective
  simp [formed,ParsedClientOrderId.text]

theorem code_ne_hyphen (leg : Leg) : leg.code ≠ '-' := by cases leg <;> decide

/-- What a text is that is read. -/
theorem parseLocal_eq_some {id : String} {p : ParsedClientOrderId} : parseLocal id=some p ↔
    ∃ i x y, id=formed i p.leg.code x y ∧ p.intent12=String.ofList i ∧
      (i.length=12 ∧ ∀ c ∈ i, isLowerHex c=true) ∧ Rust.parseUnsigned (2^32) x=some p.legIndex ∧
      Rust.parseUnsigned (2^32) y=some p.attemptNo := by
  constructor
  · intro h
    rw [parseLocal] at h
    split_ifs at h with hp
    split at h
    next i code x y hs =>
      obtain ⟨_,hguard,h⟩ := Option.bind_eq_some_iff.mp h
      obtain ⟨leg,hleg,h⟩ := Option.bind_eq_some_iff.mp h
      obtain ⟨legIndex,hx,h⟩ := Option.bind_eq_some_iff.mp h
      obtain ⟨attemptNo,hy,h⟩ := Option.bind_eq_some_iff.mp h
      cases h
      have hcode : leg.code=code := by simpa using List.find?_some hleg
      have hi : i.length=12 ∧ i.all isLowerHex=true := by
        by_contra hg
        rw [guard,if_neg hg] at hguard
        cases hguard
      refine ⟨i,x,y,?_,rfl,⟨hi.1,List.all_eq_true.mp hi.2⟩,hx,hy⟩
      rw [hcode]
      exact formed_of_splitOn hp hs
    next => cases h
  · rintro ⟨i,x,y,rfl,hp,hi,hx,hy⟩
    have hx' : '-' ∉ x := not_hyphen_of_parse (Option.isSome_of_eq_some hx)
    have hy' : '-' ∉ y := not_hyphen_of_parse (Option.isSome_of_eq_some hy)
    rw [parseLocal,if_pos (prefixed_formed ..),
      splitOn_formed (not_hyphen_of_isLowerHex hi.2) (code_ne_hyphen _) hx' hy']
    dsimp only
    rw [guard,if_pos ⟨hi.1,List.all_eq_true.mpr hi.2⟩,find_code,hx,hy]
    obtain ⟨intent12,leg,legIndex,attemptNo⟩ := p
    dsimp only at hp
    rw [hp]
    rfl

/-- An id that was made is read as its parts. -/
theorem parseLocal_clientOrderId {u : Uuid} {leg : Leg} {legIndex attemptNo : UInt32} {id : String}
    (h : clientOrderId u leg legIndex attemptNo=.ok id) :
    parseLocal id=some ⟨String.ofList u.short12,leg,legIndex.toNat,attemptNo.toNat⟩ := by
  have hread : ∀ n : UInt32, Rust.parseUnsigned (2^32) (toString n.toNat).toList=some n.toNat := by
    intro n
    rw [Rust.parseUnsigned_natText,if_pos n.toNat_lt]
  rw [clientOrderId] at h
  split_ifs at h
  refine parseLocal_eq_some.mpr ⟨u.short12,_,_,?_,rfl,short12_spec u,hread legIndex,hread attemptNo⟩
  rw [← Except.ok.inj h]
  apply String.toList_injective
  simp [formed]

theorem parseLocal_text_iff {id : String} {p : ParsedClientOrderId} (h : parseLocal id=some p) :
    p.text=id ↔ ∀ part ∈ numbers id, Rust.Shortest part := by
  obtain ⟨i,x,y,rfl,hp,hi,hx,hy⟩ := parseLocal_eq_some.mp h
  have hx' : '-' ∉ x := not_hyphen_of_parse (Option.isSome_of_eq_some hx)
  have hy' : '-' ∉ y := not_hyphen_of_parse (Option.isSome_of_eq_some hy)
  have hnum : numbers (formed i p.leg.code x y)=[x,y] := by
    rw [numbers,splitOn_formed (not_hyphen_of_isLowerHex hi.2) (code_ne_hyphen _) hx' hy']
  rw [hnum,text_eq_formed,hp,String.toList_ofList,List.forall_mem_cons,List.forall_mem_singleton,
    ← Rust.natText_eq_iff hx,← Rust.natText_eq_iff hy]
  exact formed_inj (not_hyphen_of_isLowerHex hi.2) (code_ne_hyphen _) (not_hyphen_natText _)
    (not_hyphen_natText _) hx' hy'

/-! The execution core. -/

theorem execCore_fromCode {code : Char} {leg : ExecCore.Leg} :
    ExecCore.Leg.fromCode code=some leg ↔ leg.code=code := by
  constructor
  · intro h
    unfold ExecCore.Leg.fromCode at h
    split_ifs at h with h₁ h₂ h₃ h₄ h₅ <;> cases h
    all_goals
      subst code
      rfl
  · rintro rfl
    cases leg <;> rfl

theorem execCore_code_ne_hyphen (leg : ExecCore.Leg) : leg.code ≠ '-' := by cases leg <;> decide

theorem execCore_text_eq_formed (id : ExecCore.ClientOrderId) :
    id.text=formed id.intentPrefix id.leg.code [] (toString id.attempt.toNat).toList := by
  apply String.toList_injective
  simp [formed,ExecCore.ClientOrderId.text]

theorem execCore_parse_eq_some {text : String} {id : ExecCore.ClientOrderId} :
    ExecCore.ClientOrderId.parse text=some id ↔ ∃ y, text=formed id.intentPrefix id.leg.code [] y ∧
      (id.intentPrefix.length=12 ∧ ∀ c ∈ id.intentPrefix, isLowerHex c=true) ∧
      Rust.parseUnsigned (2^32) y=some id.attempt.toNat := by
  constructor
  · intro h
    rw [ExecCore.ClientOrderId.parse] at h
    split_ifs at h with hp
    split at h
    next i code y hs =>
      obtain ⟨_,hguard,h⟩ := Option.bind_eq_some_iff.mp h
      obtain ⟨leg,hleg,h⟩ := Option.bind_eq_some_iff.mp h
      obtain ⟨attempt,hy,h⟩ := Option.bind_eq_some_iff.mp h
      cases h
      have hi : i.length=12 ∧ i.all isLowerHex=true := by
        by_contra hg
        rw [guard,ExecCore.intentHexLen,if_neg hg] at hguard
        cases hguard
      refine ⟨y,?_,⟨hi.1,List.all_eq_true.mp hi.2⟩,?_⟩
      · rw [execCore_fromCode.mp hleg]
        exact formed_of_splitOn hp hs
      · rw [hy,UInt32.toNat_ofNat',Nat.mod_eq_of_lt (Rust.lt_of_parse hy)]
    next => cases h
  · rintro ⟨y,rfl,hi,hy⟩
    have hy' : '-' ∉ y := not_hyphen_of_parse (Option.isSome_of_eq_some hy)
    rw [ExecCore.ClientOrderId.parse,if_pos (prefixed_formed ..),
      splitOn_formed (not_hyphen_of_isLowerHex hi.2) (execCore_code_ne_hyphen _) List.not_mem_nil hy']
    dsimp only
    rw [guard,if_pos ⟨hi.1,List.all_eq_true.mpr hi.2⟩,execCore_fromCode.mpr rfl,hy]
    obtain ⟨intentPrefix,leg,attempt⟩ := id
    simp

/-- What is made has twelve digits, and keeps the leg and the attempt. -/
theorem execCore_new_spec {intentId : String} {leg : ExecCore.Leg} {attempt : UInt32}
    {id : ExecCore.ClientOrderId} (h : ExecCore.ClientOrderId.new intentId leg attempt=.ok id) :
    (id.intentPrefix.length=12 ∧ ∀ c ∈ id.intentPrefix, isLowerHex c=true) ∧ id.leg=leg ∧ id.attempt=attempt := by
  rw [ExecCore.ClientOrderId.new] at h
  split_ifs at h
  cases h
  refine ⟨⟨?_,?_⟩,rfl,rfl⟩
  · rw [List.length_append,List.length_replicate]
    have hle := List.length_take_le ExecCore.intentHexLen ((intentId.toList.filter isHex).map Char.toLower)
    change _=ExecCore.intentHexLen
    omega
  · intro c hc
    obtain hc | hc := List.mem_append.mp hc
    · obtain ⟨d,hd,rfl⟩ := List.mem_map.mp (List.mem_of_mem_take hc)
      rw [(toLower_spec d).1]
      exact (List.mem_filter.mp hd).2
    · rw [List.eq_of_mem_replicate hc]
      rfl

/-- An id that was made is read as its parts. -/
theorem execCore_parse_new {intentId : String} {leg : ExecCore.Leg} {attempt : UInt32}
    {id : ExecCore.ClientOrderId} (h : ExecCore.ClientOrderId.new intentId leg attempt=.ok id) :
    ExecCore.ClientOrderId.parse id.text=some id := by
  refine execCore_parse_eq_some.mpr ⟨_,execCore_text_eq_formed id,(execCore_new_spec h).1,?_⟩
  rw [Rust.parseUnsigned_natText,if_pos id.attempt.toNat_lt]

theorem execCore_text_iff {text : String} {id : ExecCore.ClientOrderId}
    (h : ExecCore.ClientOrderId.parse text=some id) :
    id.text=text ↔ ∀ part ∈ numbers text, Rust.Shortest part := by
  obtain ⟨y,rfl,hi,hy⟩ := execCore_parse_eq_some.mp h
  have hi' := not_hyphen_of_isLowerHex hi.2
  have hy' : '-' ∉ y := not_hyphen_of_parse (Option.isSome_of_eq_some hy)
  have hnum : numbers (formed id.intentPrefix id.leg.code [] y)=[[],y] := by
    rw [numbers,splitOn_formed hi' (execCore_code_ne_hyphen _) List.not_mem_nil hy']
  rw [hnum,execCore_text_eq_formed,List.forall_mem_cons,List.forall_mem_singleton,← Rust.natText_eq_iff hy,
    formed_inj hi' (execCore_code_ne_hyphen _) List.not_mem_nil (not_hyphen_natText _) List.not_mem_nil hy']
  exact and_congr_left fun _ => iff_of_true rfl (by decide)

/-- Reading inverts making, and making inverts reading where the numbers are as short as they can be. -/
theorem ids_inverse (text : String) :
    (∀ intentId leg attempt id, ExecCore.ClientOrderId.new intentId leg attempt=.ok id →
      ExecCore.ClientOrderId.parse id.text=some id ∧ id.intentPrefix.length=12 ∧
        (∀ c ∈ id.intentPrefix, isLowerHex c=true) ∧ id.leg=leg ∧ id.attempt=attempt) ∧
    (∀ u leg legIndex attemptNo, clientOrderId u leg legIndex attemptNo=.ok text →
      parseLocal text=some ⟨String.ofList u.short12,leg,legIndex.toNat,attemptNo.toNat⟩) ∧
    (∀ id, ExecCore.ClientOrderId.parse text=some id →
      (id.text=text ↔ ∀ part ∈ numbers text, Rust.Shortest part)) ∧
    ∀ p, parseLocal text=some p → (p.text=text ↔ ∀ part ∈ numbers text, Rust.Shortest part) := by
  refine ⟨?_,?_,?_,?_⟩
  · intro intentId leg attempt id h
    obtain ⟨hi,hleg,hattempt⟩ := execCore_new_spec h
    exact ⟨execCore_parse_new h,hi.1,hi.2,hleg,hattempt⟩
  · intro u leg legIndex attemptNo h
    exact parseLocal_clientOrderId h
  · intro id h
    exact execCore_text_iff h
  · intro p h
    exact parseLocal_text_iff h

theorem sample_inverse : parseLocal "tg-0f8fad5bd9cb-t1-2" =
    some ⟨String.ofList sampleIntent.short12,.takeProfit,1,2⟩ :=
  (ids_inverse "tg-0f8fad5bd9cb-t1-2").2.1 sampleIntent .takeProfit 1 2 (by decide +kernel)

/-- Different texts are read as the same attempt, with a sign and with zeros in front. -/
theorem ids_not_inverse :
    ExecCore.ClientOrderId.parse "tg-abcdef012345-e-+1"=some ⟨"abcdef012345".toList,.entry,1⟩ ∧
      ExecCore.ClientOrderId.parse "tg-abcdef012345-e-1"=some ⟨"abcdef012345".toList,.entry,1⟩ ∧
      parseLocal "tg-abcdef012345-e0-007"=some ⟨"abcdef012345",.entry,0,7⟩ ∧
      parseLocal "tg-abcdef012345-e0-7"=some ⟨"abcdef012345",.entry,0,7⟩ ∧
      (⟨"abcdef012345".toList,.entry,1⟩ : ExecCore.ClientOrderId).text ≠ "tg-abcdef012345-e-+1" ∧
      (⟨"abcdef012345",.entry,0,7⟩ : ParsedClientOrderId).text ≠ "tg-abcdef012345-e0-007" := by
  refine ⟨rfl,rfl,?_,?_,?_,?_⟩ <;> decide +kernel

end TradeGate.OrderId
