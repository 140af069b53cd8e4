import TradeGate.Daemon.Decimals
import TradeGate.Daemon.Rows

/-! What an event of the stream leaves as it is in the row that it changes. -/
namespace TradeGate.AccountStream
open Js Machine

/-- Nothing, null or the empty text stands under the key. -/
def Blank (raw : Value) (key : String) : Prop := get raw key ∈ [none,some .null,some (.str "")]

instance (raw : Value) (key : String) : Decidable (Blank raw key) := inferInstanceAs (Decidable (_ ∈ _))

/-- Fields of the row that are texts in the event, with their keys there. -/
def orderTexts : List (String × String) := [("symbol","s"),("clientOrderId","c"),("side","S"),("type","o"),
  ("timeInForce","f"),("status","X"),("executionType","x"),("positionSide","ps")]

/-- Fields of the row that are decimals in the event, with their keys there. -/
def orderDecimals : List (String × String) := [("origQty","q"),("executedQty","z"),("lastFilledQty","l"),
  ("price","p"),("avgPrice","ap"),("stopPrice","sp")]

/-- Fields of the row that an event of orders may set. -/
def orderFields : List String :=
  orderTexts.map Prod.fst++orderDecimals.map Prod.fst++["reduceOnly","closePosition","updateTime","orderId"]

def positionTexts : List (String × String) := [("symbol","s"),("positionSide","ps"),("marginType","mt")]

def positionDecimals : List (String × String) := [("positionAmt","pa"),("entryPrice","ep"),
  ("breakEvenPrice","bep"),("unrealizedProfit","up"),("isolatedWallet","iw")]

def positionFields : List String := positionTexts.map Prod.fst++positionDecimals.map Prod.fst

/-- The event does not carry the field: it has none of the kind, or a text, an order id or an empty
decimal that is nothing. -/
def orderKept (raw : Value) (k : String) : Prop :=
  k ∉ orderFields ∨ (∃ key, (k,key) ∈ orderTexts ∧ Blank raw key) ∨ k="orderId" ∧ Blank raw "i" ∨
    ∃ key, (k,key) ∈ orderDecimals ∧ get raw key=some (.str "")

def positionKept (raw : Value) (k : String) : Prop :=
  k ∉ positionFields ∨ (∃ key, (k,key) ∈ positionTexts ∧ Blank raw key) ∨
    ∃ key, (k,key) ∈ positionDecimals ∧ get raw key=some (.str "")

/-- Nothing, null or the empty text stands in the event for the field. -/
def orderAbsent (raw : Value) (k : String) : Prop :=
  k ∉ orderFields ∨ ∃ key, (k,key) ∈ orderTexts++orderDecimals++
    [("reduceOnly","R"),("closePosition","cp"),("updateTime","T"),("orderId","i")] ∧ Blank raw key

def positionAbsent (raw : Value) (k : String) : Prop :=
  k ∉ positionFields ∨ ∃ key, (k,key) ∈ positionTexts++positionDecimals ∧ Blank raw key

/-- The field is given a value although the event has none: an absent decimal is zero, a flag is off, the
time is zero. -/
def orderDefaulted (raw : Value) (k : String) (v : Value) : Prop :=
  (∃ key, (k,key) ∈ orderDecimals ∧ get raw key ∈ [none,some .null] ∧ v=.str "0") ∨
    (k="reduceOnly" ∧ Blank raw "R" ∨ k="closePosition" ∧ Blank raw "cp") ∧ v=.bool false ∨
    k="updateTime" ∧ Blank raw "T" ∧ v=.num (.fin 0)

def positionDefaulted (raw : Value) (k : String) (v : Value) : Prop :=
  ∃ key, (k,key) ∈ positionDecimals ∧ get raw key ∈ [none,some .null] ∧ v=.str "0"

/-- The event carries an amount, and it is zero. -/
def zeroAmount (raw : Value) : Prop :=
  match get raw "pa" with
  | some (.str s) => ExecCore.parseF64 s=some (.fin 0)
  | some (.num x) => ExecCore.asF64 x=.fin 0
  | _ => False

/-- Every row stays where it is, with its fields of the kind. -/
def InPlace (absent : String → Prop) (rows rows' : List Row) : Prop :=
  ∀ (i : ℕ) (row : Row), rows[i]?=some row →
    ∃ row', rows'[i]?=some row' ∧ ∀ k, absent k → field row' k=field row k

/-- The amount of the position is missing, reads as no number or as zero, or is a number that vanishes at
twelve decimals. -/
def flatAmount (raw : Value) : Prop :=
  match get raw "pa" with
  | some (.str s) => ExecCore.parseF64 s=none ∨ ExecCore.parseF64 s=some (.fin 0)
  | some (.num x) => ∃ q, ExecCore.asF64 x=.fin q ∧ |q| ≤ 1/(2*10^12)
  | _ => True

/-- The matching rows are dropped, or a row is added where none matches, or one matching row changes, in
its place and but for the kept fields. -/
def Increments (drops : Prop) (same : Row → Bool) (kept : String → Prop) (rows rows' : List Row) : Prop :=
  drops ∧ rows'=(rows.filter fun row => !same row) ∨
    (∀ row ∈ rows, same row=false) ∧ (∃ new, rows'=rows++[new]) ∨
      ∃ before row after row', rows=before++row::after ∧ same row=true ∧ rows'=before++row'::after ∧
        ∀ k, kept k → field row' k=field row k

section
variable {raw : Value} {k key : String}

theorem text_of_blank (h : Blank raw key) : text raw key="" := by
  unfold Blank at h
  unfold text
  simp only [List.mem_cons,List.not_mem_nil,or_false] at h
  obtain h|h|h := h <;> rw [h]

theorem int_of_blank (h : Blank raw key) : int raw key=0 := by
  unfold Blank at h
  unfold int
  simp only [List.mem_cons,List.not_mem_nil,or_false] at h
  obtain h|h|h := h
  · rw [h]
    rfl
  · rw [h]
    rfl
  · rw [h]
    decide +kernel

theorem decimal_of_empty (h : get raw key=some (.str "")) : decimal raw key="" := by
  unfold decimal
  rw [h]

/-- A merge with rows that are not carried. -/
theorem increments_mergeInto {same : Row → Bool} {update : Row} {kept : String → Prop} (drops : Prop)
    (hn : (update.map Prod.fst).Nodup) (hkept : ∀ k, kept k → carried update k=none) (rows : List Row) :
    Increments drops same kept rows (mergeInto same update rows) := by
  obtain ⟨hnone,hmerge⟩|⟨before,row,after,rfl,-,hrow,hmerge⟩ := mergeInto_cases same update rows
  · exact .inr (.inl ⟨hnone,update,hmerge⟩)
  · refine .inr (.inr ⟨before,row,after,_,rfl,hrow,hmerge,fun k hk => ?_⟩)
    rw [field_mergeNonEmpty hn,hkept k hk,Option.none_or]

theorem carried_eq_none_of_str {row : Row} (h : field row k=some (.str "")) : carried row k=none := by
  unfold carried
  rw [h]
  rfl

theorem carried_eq_none_of_field {row : Row} (h : field row k=none) : carried row k=none := by
  unfold carried
  rw [h]
  rfl

theorem carried_eq_some {row : Row} {v : Value} (h : field row k=some v) (hn : v ≠ .null)
    (he : v ≠ .str "") : carried row k=some v := by
  unfold carried
  rw [h,Option.filter_some,if_pos (by simp [hn,he])]

theorem decimal_of_absent (h : get raw key ∈ [none,some .null]) : decimal raw key="0" := by
  unfold decimal
  simp only [List.mem_cons,List.not_mem_nil,or_false] at h
  obtain h|h := h <;> rw [h]

theorem truthy_of_blank (h : Blank raw key) : truthy (get raw key)=false := by
  unfold Blank at h
  simp only [List.mem_cons,List.not_mem_nil,or_false] at h
  obtain h|h|h := h
  · rw [h]
    rfl
  · rw [h]
    rfl
  · rw [h]
    decide +kernel

/-- A merge leaves the fields of the kind alone where it carries none of them, or what the row has. -/
theorem inPlace_mergeInto_iff {same : Row → Bool} {update : Row} {absent : String → Prop}
    (hn : (update.map Prod.fst).Nodup) (rows : List Row) :
    InPlace absent rows (mergeInto same update rows) ↔
      ∀ row ∈ rows.find? same, ∀ k v, absent k → carried update k=some v → field row k=some v := by
  obtain ⟨hnone,hmerge⟩|⟨before,row,after,rfl,hbefore,hrow,hmerge⟩ := mergeInto_cases same update rows
  · have hfind : rows.find? same=none := List.find?_eq_none.mpr fun row hr => by simp [hnone row hr]
    rw [hfind,hmerge]
    refine iff_of_true (fun i row hi => ⟨row,?_,fun k _ => rfl⟩) (by simp)
    rw [List.getElem?_append_left (List.getElem?_eq_some_iff.mp hi).1,hi]
  · have hfind : (before++row::after).find? same=some row := by
      rw [List.find?_append,List.find?_eq_none.mpr fun r hr => by simp [hbefore r hr],Option.none_or,
        List.find?_cons_of_pos hrow]
    rw [hfind,hmerge]
    constructor
    · intro h r hr k v hk hv
      obtain rfl : row=r := Option.some_inj.mp hr
      obtain ⟨row',hrow',hkeep⟩ := h before.length row (by simp)
      obtain rfl : mergeNonEmpty row update=row' := by simpa using hrow'
      have hfield := hkeep k hk
      rw [field_mergeNonEmpty hn,hv,Option.some_or] at hfield
      exact hfield.symm
    · intro h i r hr
      rcases lt_trichotomy i before.length with hi|rfl|hi
      · rw [List.getElem?_append_left hi] at hr
        exact ⟨r,by rw [List.getElem?_append_left hi,hr],fun k _ => rfl⟩
      · obtain rfl : row=r := by simpa using hr
        refine ⟨mergeNonEmpty row update,by simp,fun k hk => ?_⟩
        rw [field_mergeNonEmpty hn]
        cases hc : carried update k with
        | none => exact Option.none_or
        | some v => rw [Option.some_or,h row rfl k v hk hc]
      · refine ⟨r,?_,fun k _ => rfl⟩
        rw [List.getElem?_append_right hi.le] at hr ⊢
        obtain ⟨j,hj⟩ := Nat.exists_eq_add_of_lt (Nat.sub_pos_of_lt hi)
        rw [hj] at hr ⊢
        exact hr

/-- Rows that are dropped are not in place. -/
theorem inPlace_filter_iff {same : Row → Bool} {absent : String → Prop} (rows : List Row) :
    InPlace absent rows (rows.filter fun row => !same row) ↔ ∀ row ∈ rows, same row=false := by
  constructor
  · intro h
    by_contra hsome
    have hlt : (rows.filter fun row => !same row).length<rows.length :=
      List.length_filter_lt_length_iff_exists.mpr (by simpa using hsome)
    obtain ⟨row',hrow',-⟩ := h _ _ (List.getElem?_eq_getElem hlt)
    simp at hrow'
  · intro h
    rw [List.filter_eq_self.mpr fun row hr => by simp [h row hr]]
    exact fun i row hi => ⟨row,hi,fun k _ => rfl⟩

end

namespace OrderUpdate
variable {raw : Value}

theorem carried_toRow (k : String) (h : orderKept raw k) : carried (fromWs raw).toRow k=none := by
  obtain h|⟨key,hkey,hblank⟩|⟨rfl,hblank⟩|⟨key,hkey,hempty⟩ := h
  · apply carried_eq_none_of_field
    apply field_eq_none
    intro hk
    apply h
    unfold toRow at hk
    simp only [orderFields,orderTexts,orderDecimals]
    split at hk <;> simp at hk ⊢ <;> tauto
  · apply carried_eq_none_of_str
    have ht := text_of_blank hblank
    simp only [orderTexts,List.mem_cons,List.not_mem_nil,or_false,Prod.mk.injEq] at hkey
    obtain ⟨rfl,rfl⟩|⟨rfl,rfl⟩|⟨rfl,rfl⟩|⟨rfl,rfl⟩|⟨rfl,rfl⟩|⟨rfl,rfl⟩|⟨rfl,rfl⟩|⟨rfl,rfl⟩ := hkey
    all_goals exact congrArg (fun s => some (Value.str s)) ht
  · apply carried_eq_none_of_field
    rw [field_orderId]
    exact if_pos (int_of_blank hblank)
  · apply carried_eq_none_of_str
    have ht := decimal_of_empty hempty
    simp only [orderDecimals,List.mem_cons,List.not_mem_nil,or_false,Prod.mk.injEq] at hkey
    obtain ⟨rfl,rfl⟩|⟨rfl,rfl⟩|⟨rfl,rfl⟩|⟨rfl,rfl⟩|⟨rfl,rfl⟩|⟨rfl,rfl⟩ := hkey
    all_goals exact congrArg (fun s => some (Value.str s)) ht

theorem increments_apply (raw : Value) (rows : List Row) :
    Increments ((fromWs raw).isTerminal=true) (fromWs raw).same (orderKept raw) rows
      ((fromWs raw).apply rows) := by
  unfold apply
  by_cases ht : (fromWs raw).isTerminal=true
  · rw [if_pos ht]
    exact .inl ⟨ht,rfl⟩
  · rw [if_neg ht]
    exact increments_mergeInto _ (toRow_nodup _) carried_toRow rows

/-- A default is carried. -/
theorem carried_of_defaulted {k : String} {v : Value} (h : orderDefaulted raw k v) :
    orderAbsent raw k ∧ carried (fromWs raw).toRow k=some v := by
  obtain ⟨key,hkey,hget,rfl⟩|⟨⟨rfl,hblank⟩|⟨rfl,hblank⟩,rfl⟩|⟨rfl,hblank,rfl⟩ := h
  · have hblank : Blank raw key := by
      simp only [List.mem_cons,List.not_mem_nil,or_false] at hget
      obtain hget|hget := hget <;> simp [Blank,hget]
    have hzero := decimal_of_absent hget
    refine ⟨.inr ⟨key,by simp [hkey],hblank⟩,carried_eq_some ?_ (by simp) (by decide)⟩
    simp only [orderDecimals,List.mem_cons,List.not_mem_nil,or_false,Prod.mk.injEq] at hkey
    obtain ⟨rfl,rfl⟩|⟨rfl,rfl⟩|⟨rfl,rfl⟩|⟨rfl,rfl⟩|⟨rfl,rfl⟩|⟨rfl,rfl⟩ := hkey
    all_goals exact congrArg (fun s => some (Value.str s)) hzero
  · refine ⟨.inr ⟨"R",by simp,hblank⟩,carried_eq_some ?_ (by simp) (by simp)⟩
    exact congrArg (fun b => some (Value.bool b)) (truthy_of_blank hblank)
  · refine ⟨.inr ⟨"cp",by simp,hblank⟩,carried_eq_some ?_ (by simp) (by simp)⟩
    exact congrArg (fun b => some (Value.bool b)) (truthy_of_blank hblank)
  · refine ⟨.inr ⟨"T",by simp,hblank⟩,carried_eq_some ?_ (by simp) (by simp)⟩
    exact congrArg (fun i : ℤ => some (Value.num (.fin i))) (int_of_blank hblank)

/-- What is absent is kept, or has its default. -/
theorem kept_or_defaulted {k : String} (h : orderAbsent raw k) :
    orderKept raw k ∨ ∃ v, orderDefaulted raw k v := by
  obtain h|⟨key,hkey,hblank⟩ := h
  · exact .inl (.inl h)
  · simp only [List.append_assoc,List.mem_append] at hkey
    obtain hkey|hkey|hkey := hkey
    · exact .inl (.inr (.inl ⟨key,hkey,hblank⟩))
    · by_cases hget : get raw key ∈ [none,some .null]
      · exact .inr ⟨_,.inl ⟨key,hkey,hget,rfl⟩⟩
      · have hempty : get raw key=some (.str "") := by
          unfold Blank at hblank
          simp only [List.mem_cons,List.not_mem_nil,or_false] at hblank hget
          tauto
        exact .inl (.inr (.inr (.inr ⟨key,hkey,hempty⟩)))
    · simp only [List.mem_cons,List.not_mem_nil,or_false,Prod.mk.injEq] at hkey
      obtain ⟨rfl,rfl⟩|⟨rfl,rfl⟩|⟨rfl,rfl⟩|⟨rfl,rfl⟩ := hkey
      · exact .inr ⟨_,.inr (.inl ⟨.inl ⟨rfl,hblank⟩,rfl⟩)⟩
      · exact .inr ⟨_,.inr (.inl ⟨.inr ⟨rfl,hblank⟩,rfl⟩)⟩
      · exact .inr ⟨_,.inr (.inr ⟨rfl,hblank,rfl⟩)⟩
      · exact .inl (.inr (.inr (.inl ⟨rfl,hblank⟩)))

/-- What the event does not have stays in every row, unless the order ends and its rows go. -/
def Unerased (raw : Value) (rows rows' : List Row) : Prop :=
  if (fromWs raw).isTerminal then rows'=rows.filter fun row => !(fromWs raw).same row
  else InPlace (orderAbsent raw) rows rows'

/-- The row that the event changes, if it changes one, has the defaults already. -/
def Carries (raw : Value) (rows : List Row) : Prop :=
  (fromWs raw).isTerminal=false → ∀ row ∈ rows.find? (fromWs raw).same,
    ∀ k v, orderDefaulted raw k v → field row k=some v

theorem unerased_iff (raw : Value) (rows : List Row) :
    Unerased raw rows ((fromWs raw).apply rows) ↔ Carries raw rows := by
  unfold Unerased Carries apply
  cases ht : (fromWs raw).isTerminal with
  | true => simp
  | false =>
    simp only [Bool.false_eq_true,if_false,forall_const]
    rw [inPlace_mergeInto_iff (toRow_nodup _)]
    constructor
    · intro h row hrow k v hd
      obtain ⟨habsent,hcarried⟩ := carried_of_defaulted hd
      exact h row hrow k v habsent hcarried
    · intro h row hrow k v habsent hcarried
      obtain hkept|⟨v',hd⟩ := kept_or_defaulted habsent
      · rw [carried_toRow k hkept] at hcarried
        cases hcarried
      · rw [(carried_of_defaulted hd).2] at hcarried
        cases hcarried
        exact h row hrow k v hd

end OrderUpdate

namespace PositionUpdate
variable {raw : Value}

theorem carried_toRow (k : String) (h : positionKept raw k) : carried (fromWs raw).toRow k=none := by
  obtain h|⟨key,hkey,hblank⟩|⟨key,hkey,hempty⟩ := h
  · apply carried_eq_none_of_field
    apply field_eq_none
    intro hk
    apply h
    unfold toRow at hk
    simp only [positionFields,positionTexts,positionDecimals]
    simp at hk ⊢
    tauto
  · apply carried_eq_none_of_str
    have ht := text_of_blank hblank
    simp only [positionTexts,List.mem_cons,List.not_mem_nil,or_false,Prod.mk.injEq] at hkey
    obtain ⟨rfl,rfl⟩|⟨rfl,rfl⟩|⟨rfl,rfl⟩ := hkey
    all_goals exact congrArg (fun s => some (Value.str s)) ht
  · apply carried_eq_none_of_str
    have ht := decimal_of_empty hempty
    simp only [positionDecimals,List.mem_cons,List.not_mem_nil,or_false,Prod.mk.injEq] at hkey
    obtain ⟨rfl,rfl⟩|⟨rfl,rfl⟩|⟨rfl,rfl⟩|⟨rfl,rfl⟩|⟨rfl,rfl⟩ := hkey
    all_goals exact congrArg (fun s => some (Value.str s)) ht

/-- A flat position has an amount that is missing or vanishes. -/
theorem flatAmount_of_isFlat (h : (fromWs raw).isFlat=true) : flatAmount raw := by
  have hamount : (fromWs raw).positionAmt=decimal raw "pa" := rfl
  unfold isFlat at h
  rw [hamount] at h
  unfold decimal at h
  unfold flatAmount
  split
  next s hs =>
    rw [hs] at h
    dsimp only at h
    cases hp : ExecCore.parseF64 s with
    | none => exact .inl rfl
    | some v =>
      rw [hp] at h
      exact .inr (congrArg some (of_decide_eq_true h))
  next x hx =>
    rw [hx] at h
    dsimp only at h
    cases hy : ExecCore.asF64 x with
    | fin y =>
      refine ⟨y,rfl,?_⟩
      by_contra hbig
      obtain ⟨v,hv,hne⟩ := ExecCore.parseF64_decimalText (ExecCore.round_of_asF64 hy) (not_le.mp hbig)
      rw [hy,hv] at h
      exact hne (of_decide_eq_true h)
    | nan =>
      have hfalse : ((ExecCore.parseF64 (ExecCore.decimalText .nan)).map fun v =>
          decide (v=.fin 0)).getD true=false := by decide +kernel
      rw [hy,hfalse] at h
      cases h
    | inf negative =>
      have hfalse : ((ExecCore.parseF64 (ExecCore.decimalText (.inf negative))).map fun v =>
          decide (v=.fin 0)).getD true=false := by cases negative <;> decide +kernel
      rw [hy,hfalse] at h
      cases h
  next => trivial

theorem increments_apply (raw : Value) (rows : List Row) :
    Increments (flatAmount raw) (fromWs raw).same (positionKept raw) rows ((fromWs raw).apply rows) := by
  unfold apply
  by_cases hf : (fromWs raw).isFlat=true
  · rw [if_pos hf]
    exact .inl ⟨flatAmount_of_isFlat hf,rfl⟩
  · rw [if_neg hf]
    exact increments_mergeInto _ (toRow_nodup _) carried_toRow rows

theorem carried_of_defaulted {k : String} {v : Value} (h : positionDefaulted raw k v) :
    positionAbsent raw k ∧ carried (fromWs raw).toRow k=some v := by
  obtain ⟨key,hkey,hget,rfl⟩ := h
  have hblank : Blank raw key := by
    simp only [List.mem_cons,List.not_mem_nil,or_false] at hget
    obtain hget|hget := hget <;> simp [Blank,hget]
  have hzero := decimal_of_absent hget
  refine ⟨.inr ⟨key,by simp [hkey],hblank⟩,carried_eq_some ?_ (by simp) (by decide)⟩
  simp only [positionDecimals,List.mem_cons,List.not_mem_nil,or_false,Prod.mk.injEq] at hkey
  obtain ⟨rfl,rfl⟩|⟨rfl,rfl⟩|⟨rfl,rfl⟩|⟨rfl,rfl⟩|⟨rfl,rfl⟩ := hkey
  all_goals exact congrArg (fun s => some (Value.str s)) hzero

theorem kept_or_defaulted {k : String} (h : positionAbsent raw k) :
    positionKept raw k ∨ ∃ v, positionDefaulted raw k v := by
  obtain h|⟨key,hkey,hblank⟩ := h
  · exact .inl (.inl h)
  · obtain hkey|hkey := List.mem_append.mp hkey
    · exact .inl (.inr (.inl ⟨key,hkey,hblank⟩))
    · by_cases hget : get raw key ∈ [none,some .null]
      · exact .inr ⟨_,key,hkey,hget,rfl⟩
      · have hempty : get raw key=some (.str "") := by
          unfold Blank at hblank
          simp only [List.mem_cons,List.not_mem_nil,or_false] at hblank hget
          tauto
        exact .inl (.inr (.inr ⟨key,hkey,hempty⟩))

/-- An amount of zero is flat. -/
theorem isFlat_of_zeroAmount (h : zeroAmount raw) : (fromWs raw).isFlat=true := by
  have hamount : (fromWs raw).positionAmt=decimal raw "pa" := rfl
  have hstr : ∀ s, get raw "pa"=some (.str s) → decimal raw "pa"=s := fun s hs => by
    unfold decimal
    rw [hs]
  have hnum : ∀ x, get raw "pa"=some (.num x) → decimal raw "pa"=ExecCore.decimalText (ExecCore.asF64 x) :=
    fun x hx => by
      unfold decimal
      rw [hx]
  unfold isFlat
  rw [hamount]
  unfold zeroAmount at h
  split at h
  next s hs =>
    rw [hstr s hs,h]
    rfl
  next x hx =>
    rw [hnum x hx,h]
    decide +kernel
  next => exact h.elim

/-- What the event does not have stays in every row, unless it has an amount of zero and the rows of its
position go. -/
def Unerased (raw : Value) (rows rows' : List Row) : Prop :=
  InPlace (positionAbsent raw) rows rows' ∨
    zeroAmount raw ∧ rows'=rows.filter fun row => !(fromWs raw).same row

/-- An amount that counts as flat is a zero that the event carries, or there is no row of the position;
where it is not flat, the row that the event changes has the defaults already. -/
def Carries (raw : Value) (rows : List Row) : Prop :=
  if (fromWs raw).isFlat then zeroAmount raw ∨ ∀ row ∈ rows, (fromWs raw).same row=false
  else ∀ row ∈ rows.find? (fromWs raw).same, ∀ k v, positionDefaulted raw k v → field row k=some v

theorem unerased_iff (raw : Value) (rows : List Row) :
    Unerased raw rows ((fromWs raw).apply rows) ↔ Carries raw rows := by
  unfold Unerased Carries apply
  by_cases hf : (fromWs raw).isFlat=true
  · rw [if_pos hf,if_pos hf,inPlace_filter_iff,or_comm]
    exact or_congr (and_iff_left rfl) Iff.rfl
  · have hzero : ¬zeroAmount raw := fun h => hf (isFlat_of_zeroAmount h)
    rw [if_neg hf,if_neg hf,inPlace_mergeInto_iff (toRow_nodup _),or_iff_left fun h => hzero h.1]
    constructor
    · intro h row hrow k v hd
      obtain ⟨habsent,hcarried⟩ := carried_of_defaulted hd
      exact h row hrow k v habsent hcarried
    · intro h row hrow k v habsent hcarried
      obtain hkept|⟨v',hd⟩ := kept_or_defaulted habsent
      · rw [carried_toRow k hkept] at hcarried
        cases hcarried
      · rw [(carried_of_defaulted hd).2] at hcarried
        cases hcarried
        exact h row hrow k v hd

end PositionUpdate

/-- The list at `/a/P` of the event. -/
def rawPositions (event : Value) : List Value :=
  match (get event "a").bind fun a => get a "P" with
  | some (.arr raws) => raws
  | _ => []

namespace AccountStreamCache

/-- An event of orders increments the orders by its `o`, an event of positions the positions by each of
its rows in turn, and nothing else changes either. -/
def Incremented (c c' : AccountStreamCache) (event : Value) : Prop :=
  (match if text event "e"="ORDER_TRADE_UPDATE" then get event "o" else none with
    | some raw => Increments ((OrderUpdate.fromWs raw).isTerminal=true) (OrderUpdate.fromWs raw).same
        (orderKept raw) c.orders c'.orders
    | none => c'.orders=c.orders) ∧
  let raws := if text event "e"="ACCOUNT_UPDATE" then rawPositions event else []
  let step := fun rows raw => (PositionUpdate.fromWs raw).apply rows
  c'.positions=run step c.positions raws ∧
    Throughout step (fun rows raw => Increments (flatAmount raw) (PositionUpdate.fromWs raw).same
      (positionKept raw) rows (step rows raw)) c.positions raws

/-- The event erases no field that it does not have, and no position but for an amount of zero. -/
def Unerased (c c' : AccountStreamCache) (event : Value) : Prop :=
  (∀ raw ∈ if text event "e"="ORDER_TRADE_UPDATE" then get event "o" else none,
    OrderUpdate.Unerased raw c.orders c'.orders) ∧
  Throughout (fun rows raw => (PositionUpdate.fromWs raw).apply rows)
    (fun rows raw => PositionUpdate.Unerased raw rows ((PositionUpdate.fromWs raw).apply rows)) c.positions
    (if text event "e"="ACCOUNT_UPDATE" then rawPositions event else [])

/-- The event has what the rows that it changes need. -/
def Carries (c : AccountStreamCache) (event : Value) : Prop :=
  (∀ raw ∈ if text event "e"="ORDER_TRADE_UPDATE" then get event "o" else none,
    OrderUpdate.Carries raw c.orders) ∧
  Throughout (fun rows raw => (PositionUpdate.fromWs raw).apply rows)
    (fun rows raw => PositionUpdate.Carries raw rows) c.positions
    (if text event "e"="ACCOUNT_UPDATE" then rawPositions event else [])

theorem parse_order {event : Value} (h : text event "e"="ORDER_TRADE_UPDATE") :
    UserStreamEvent.parse event=(get event "o").map fun raw => .order (.fromWs raw) := by
  unfold UserStreamEvent.parse
  rw [h]
  rfl

theorem parse_positions {event : Value} (h : text event "e"="ACCOUNT_UPDATE") :
    UserStreamEvent.parse event=some (.position ((rawPositions event).map .fromWs)) := by
  unfold UserStreamEvent.parse rawPositions
  rw [h]
  change (match (get event "a").bind fun a => get a "P" with
    | some (.arr raws) => some (UserStreamEvent.position (raws.map .fromWs))
    | _ => some (.position []))=_
  split <;> rfl

theorem parse_other {event : Value} (ho : text event "e" ≠ "ORDER_TRADE_UPDATE")
    (hp : text event "e" ≠ "ACCOUNT_UPDATE") :
    UserStreamEvent.parse event ∈ [none,some .listenKeyExpired] := by
  unfold UserStreamEvent.parse
  split
  · next h => exact absurd h ho
  · next h => exact absurd h hp
  · simp
  · simp

theorem applyMessage_orders (c : AccountStreamCache) {event raw : Value} (now : ℚ)
    (ho : text event "e"="ORDER_TRADE_UPDATE") (hraw : get event "o"=some raw) :
    (c.applyMessage event now).orders=(OrderUpdate.fromWs raw).apply c.orders := by
  unfold applyMessage
  rw [parse_order ho,hraw]
  rfl

theorem unerased_iff (c : AccountStreamCache) (event : Value) (now : ℚ) :
    Unerased c (c.applyMessage event now) event ↔ Carries c event := by
  unfold Unerased Carries
  refine and_congr (forall₂_congr fun raw hraw => ?_) ?_
  · by_cases ho : text event "e"="ORDER_TRADE_UPDATE"
    · rw [if_pos ho] at hraw
      rw [applyMessage_orders c now ho hraw]
      exact OrderUpdate.unerased_iff raw c.orders
    · rw [if_neg ho] at hraw
      cases hraw
  · exact ⟨Throughout.mono fun rows raw => (PositionUpdate.unerased_iff raw rows).mp,
      Throughout.mono fun rows raw => (PositionUpdate.unerased_iff raw rows).mpr⟩

/-- An event keeps what it does not carry, but for decimals, flags and times, which are never absent
once the event is read; an order that ends goes as a whole. -/
theorem increments_applyMessage (c : AccountStreamCache) (event : Value) (now : ℚ) :
    Incremented c (c.applyMessage event now) event := by
  unfold Incremented applyMessage
  by_cases ho : text event "e"="ORDER_TRADE_UPDATE"
  · have hp : text event "e" ≠ "ACCOUNT_UPDATE" := by simp [ho]
    rw [if_pos ho,if_neg hp,parse_order ho]
    cases get event "o" with
    | none => exact ⟨rfl,rfl,trivial⟩
    | some raw => exact ⟨OrderUpdate.increments_apply raw c.orders,rfl,trivial⟩
  · rw [if_neg ho]
    by_cases hp : text event "e"="ACCOUNT_UPDATE"
    · rw [if_pos hp,parse_positions hp]
      refine ⟨rfl,?_,?_⟩
      · change ((rawPositions event).map _).foldl _ _=_
        rw [List.foldl_map]
        rfl
      · apply Throughout.mono (P := fun _ _ => True)
        · intro rows raw _
          exact PositionUpdate.increments_apply raw rows
        · exact throughout_of_forall fun _ _ => trivial
    · rw [if_neg hp]
      have hparse := parse_other ho hp
      simp only [List.mem_cons,List.not_mem_nil,or_false] at hparse
      obtain h|h := hparse
      · rw [h]
        exact ⟨rfl,rfl,trivial⟩
      · rw [h]
        exact ⟨rfl,rfl,trivial⟩

/-- An event erases nothing that it does not have where the rows that it changes have the defaults
already, and only there; in any case it changes one row, but for the texts and ids that it does not have. -/
theorem incremented (c : AccountStreamCache) (event : Value) (now : ℚ) :
    Incremented c (c.applyMessage event now) event ∧
      (Unerased c (c.applyMessage event now) event ↔ Carries c event) :=
  ⟨increments_applyMessage c event now,unerased_iff c event now⟩

def cachedRows : AccountStreamCache where
  orders := [[("symbol",.str "BTCUSDT"),("clientOrderId",.str "a"),("origQty",.str "1")]]
  positions := [[("symbol",.str "BTCUSDT"),("positionSide",.str "BOTH"),("positionAmt",.str "1")]]

def orderMessage : Value := .obj [("e",.str "ORDER_TRADE_UPDATE"),("o",.obj [("s",.str "BTCUSDT"),
  ("c",.str "a"),("X",.str "PARTIALLY_FILLED")])]

def positionMessage : Value := .obj [("e",.str "ACCOUNT_UPDATE"),("a",.obj [("P",.arr [.obj
  [("s",.str "BTCUSDT"),("ps",.str "BOTH"),("ep",.str "100")]])])]

/-- The event does not have the quantity of the order, nor the other the amount of the position. -/
theorem absent_not_kept :
    ((get orderMessage "o").bind fun raw => get raw "q")=none ∧
      ((cachedRows.applyMessage orderMessage 1).orders.map fun row => field row "origQty") =
        [some (.str "0")] ∧
      (cachedRows.applyMessage positionMessage 1).positions=[] := by
  refine ⟨rfl,?_,?_⟩ <;> decide +kernel

end AccountStreamCache
end TradeGate.AccountStream
