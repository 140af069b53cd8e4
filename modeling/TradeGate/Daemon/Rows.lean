import Mathlib.Data.List.Nodup
import TradeGate.Model.AccountStream

/-! Which rows of the account cache an event of the stream changes. -/
namespace TradeGate.AccountStream
open Js Machine

/-! Fields of a merged row. -/
section
variable {row target update : Row} {key k : String} {v : Value}

theorem field_cons (l : String) (x : Value) (row : Row) :
    field ((l,x)::row) k=if k=l then some x else field row k := by
  unfold field
  rw [List.lookup_cons]
  by_cases hk : k=l
  · rw [if_pos hk,beq_iff_eq.mpr hk]
  · rw [if_neg hk,beq_eq_false_iff_ne.mpr hk]

theorem field_eq_none (h : k ∉ row.map Prod.fst) : field row k=none := by
  induction row with
  | nil => rfl
  | cons f row ih =>
    obtain ⟨l,x⟩ := f
    rw [List.map_cons,List.mem_cons,not_or] at h
    rw [field_cons,if_neg h.1,ih h.2]

theorem field_putField : field (putField key v row) k=if k=key then some v else field row k := by
  induction row with
  | nil => rw [putField,field_cons]
  | cons f row ih =>
    obtain ⟨l,x⟩ := f
    rw [putField]
    by_cases hl : l=key
    · subst hl
      rw [if_pos rfl,field_cons,field_cons]
      by_cases hk : k=l
      · rw [if_pos hk,if_pos hk]
      · rw [if_neg hk,if_neg hk,if_neg hk]
    · rw [if_neg hl,field_cons,field_cons,ih]
      by_cases hk : k=l
      · subst hk
        rw [if_pos rfl,if_neg hl,if_pos rfl]
      · rw [if_neg hk,if_neg hk]

/-- What a row carries under a key; null and the empty text are nothing. -/
def carried (row : Row) (key : String) : Option Value :=
  (field row key).filter fun v => ¬(v=.null ∨ v=.str "")

theorem carried_cons (l : String) (x : Value) (row : Row) : carried ((l,x)::row) k =
    if k=l then (if x=.null ∨ x=.str "" then none else some x) else carried row k := by
  unfold carried
  rw [field_cons]
  by_cases hk : k=l
  · rw [if_pos hk,if_pos hk]
    by_cases hx : x=.null ∨ x=.str ""
    · rw [if_pos hx,Option.filter_some,if_neg (by rw [decide_eq_true_eq]; exact not_not.mpr hx)]
    · rw [if_neg hx,Option.filter_some,if_pos (by rw [decide_eq_true_eq]; exact hx)]
  · rw [if_neg hk,if_neg hk]

/-- An increment overwrites the fields that it carries. -/
theorem field_mergeNonEmpty (h : (update.map Prod.fst).Nodup) :
    field (mergeNonEmpty target update) k=(carried update k).or (field target k) := by
  unfold mergeNonEmpty
  induction update generalizing target with
  | nil => rfl
  | cons f update ih =>
    obtain ⟨l,v⟩ := f
    rw [List.map_cons,List.nodup_cons] at h
    rw [List.foldl_cons,ih h.2,carried_cons]
    by_cases hk : k=l
    · subst hk
      have hnone : carried update k=none := by rw [carried,field_eq_none h.1]; rfl
      rw [hnone,if_pos rfl,Option.none_or]
      by_cases hv : v=.null ∨ v=.str ""
      · rw [if_pos hv,if_pos hv,Option.none_or]
      · rw [if_neg hv,if_neg hv,field_putField,if_pos rfl,Option.some_or]
    · rw [if_neg hk]
      by_cases hv : v=.null ∨ v=.str ""
      · rw [if_pos hv]
      · rw [if_neg hv,field_putField,if_neg hk]

/-- A merged row has each field from the update or from before. -/
theorem field_mergeNonEmpty_or (h : (update.map Prod.fst).Nodup) (target : Row) (k : String) :
    field (mergeNonEmpty target update) k=field update k ∨
      field (mergeNonEmpty target update) k=field target k := by
  rw [field_mergeNonEmpty h]
  cases hc : carried update k with
  | none => exact .inr rfl
  | some v => exact .inl (Option.filter_eq_some_iff.mp hc).1.symm

end

/-! Rows that match an update. -/
section
variable {p q : Row → Bool} {update : Row} {rows : List Row}

theorem mergeInto_cases (p : Row → Bool) (update : Row) (rows : List Row) :
    (∀ row ∈ rows, p row=false) ∧ mergeInto p update rows=rows++[update] ∨
    ∃ before row after, rows=before++row::after ∧ (∀ r ∈ before, p r=false) ∧ p row=true ∧
      mergeInto p update rows=before++mergeNonEmpty row update::after := by
  induction rows with
  | nil => exact .inl ⟨by simp,rfl⟩
  | cons row rows ih =>
    rw [mergeInto]
    by_cases hp : p row=true
    · exact .inr ⟨[],row,rows,rfl,by simp,hp,by rw [if_pos hp]; rfl⟩
    · rw [if_neg hp]
      obtain ⟨hnone,hmerge⟩|⟨before,r,after,rfl,hbefore,hr,hmerge⟩ := ih
      · exact .inl ⟨List.forall_mem_cons.mpr ⟨by simpa using hp,hnone⟩,by rw [hmerge]; rfl⟩
      · refine .inr ⟨row::before,r,after,rfl,?_,hr,by rw [hmerge]; rfl⟩
        exact List.forall_mem_cons.mpr ⟨by simpa using hp,hbefore⟩

/-- Only the first row that matches counts. -/
theorem mergeInto_congr (h : rows.find? p=rows.find? q) : mergeInto p update rows=mergeInto q update rows := by
  induction rows with
  | nil => rfl
  | cons row rows ih =>
    rw [List.find?_cons,List.find?_cons] at h
    rw [mergeInto,mergeInto]
    cases hp : p row with
    | true =>
      cases hq : q row with
      | true => rfl
      | false =>
        rw [hp,hq] at h
        have hrow := List.find?_some h.symm
        rw [hq] at hrow
        cases hrow
    | false =>
      cases hq : q row with
      | true =>
        rw [hp,hq] at h
        have hrow := List.find?_some h
        rw [hp] at hrow
        cases hrow
      | false =>
        rw [hp,hq] at h
        rw [if_neg (by decide),if_neg (by decide),ih h]

theorem find?_eq_of_imp (hqp : ∀ row, q row=true → p row=true)
    (h : ∀ row ∈ rows.find? p, q row=true) : rows.find? p=rows.find? q := by
  induction rows with
  | nil => rfl
  | cons row rows ih =>
    rw [List.find?_cons] at h ⊢
    rw [List.find?_cons]
    cases hp : p row with
    | true =>
      rw [hp] at h
      rw [h row rfl]
    | false =>
      rw [hp] at h
      cases hq : q row with
      | true =>
        rw [hqp row hq] at hp
        cases hp
      | false => exact ih h

/-- Rows that neither match nor come of a match stay as they are. -/
theorem filter_mergeInto (keep : Row → Bool) (hp : ∀ row, p row=true → keep row=false)
    (hmerged : ∀ row, p row=true → keep (mergeNonEmpty row update)=false) (hnew : keep update=false) :
    (mergeInto p update rows).filter keep=rows.filter keep := by
  obtain ⟨-,hmerge⟩|⟨before,row,after,rfl,-,hrow,hmerge⟩ := mergeInto_cases p update rows
  · rw [hmerge,List.filter_append,List.filter_cons_of_neg (by simp [hnew]),List.filter_nil,
      List.append_nil]
  · rw [hmerge,List.filter_append,List.filter_append,List.filter_cons_of_neg (by simp [hmerged row hrow]),
      List.filter_cons_of_neg (by simp [hp row hrow])]

end
/-! Orders. -/

def symbolOf (row : Row) : Option String :=
  match field row "symbol" with
  | some (.str s) => some s
  | _ => none

/-- The order id; zero is a placeholder. -/
def idOf (row : Row) : Option ℚ :=
  match field row "orderId" with
  | some (.num (.fin q)) => if q=0 then none else some q
  | _ => none

/-- The client's order id; the empty text is a placeholder. -/
def clientOf (row : Row) : Option String :=
  match field row "clientOrderId" with
  | some (.str s) => if s="" then none else some s
  | _ => none

theorem field_of_idOf {row : Row} {i : ℚ} (h : idOf row=some i) : field row "orderId"=some (.num (.fin i)) := by
  unfold idOf at h
  split at h
  next q hq =>
    by_cases hz : q=0
    · rw [if_pos hz] at h
      cases h
    · rw [if_neg hz] at h
      cases h
      exact hq
  next => cases h

theorem field_of_clientOf {row : Row} {c : String} (h : clientOf row=some c) :
    field row "clientOrderId"=some (.str c) := by
  unfold clientOf at h
  split at h
  next s hs =>
    by_cases hz : s=""
    · rw [if_pos hz] at h
      cases h
    · rw [if_neg hz] at h
      cases h
      exact hs
  next => cases h

/-- The rows are of one symbol, and have an order id or a client's id in common. -/
def SameOrder (r r' : Row) : Prop :=
  (∃ s ∈ symbolOf r, symbolOf r'=some s) ∧
    ((∃ i ∈ idOf r, idOf r'=some i) ∨ ∃ c ∈ clientOf r, clientOf r'=some c)

instance (r r' : Row) : Decidable (SameOrder r r') :=
  inferInstanceAs (Decidable ((∃ s ∈ symbolOf r, _) ∧ ((∃ i ∈ idOf r, _) ∨ ∃ c ∈ clientOf r, _)))

/-- No two rows are of one order. -/
def Apart (rows : List Row) : Prop := rows.Pairwise fun r r' => ¬SameOrder r r'

instance (rows : List Row) : Decidable (Apart rows) := inferInstanceAs (Decidable (rows.Pairwise _))

theorem SameOrder.symm {r r' : Row} (h : SameOrder r r') : SameOrder r' r := by
  obtain ⟨⟨s,hs,hs'⟩,⟨i,hi,hi'⟩|⟨c,hc,hc'⟩⟩ := h
  · exact ⟨⟨s,hs',hs⟩,.inl ⟨i,hi',hi⟩⟩
  · exact ⟨⟨s,hs',hs⟩,.inr ⟨c,hc',hc⟩⟩

namespace OrderUpdate
variable {u : OrderUpdate} {row : Row} {rows : List Row}

/-- The row is of the order of the event. -/
def denotes (u : OrderUpdate) (row : Row) : Bool := SameOrder row u.toRow

/-- What the event is to do: the rows of its order go, or the first of them is merged with it, or a row
of it is added. -/
def applyOwn (u : OrderUpdate) (rows : List Row) : List Row :=
  if u.isTerminal then rows.filter fun row => !u.denotes row else mergeInto u.denotes u.toRow rows

/-- An event that ends its order matches no row of another order; any other event has the first match
among the rows of its order, if there is one, and these are not more than one. -/
def Sole (u : OrderUpdate) (rows : List Row) : Prop :=
  if u.isTerminal then ∀ row ∈ rows, u.same row=true → u.denotes row=true
  else (∀ row ∈ rows.find? u.same, u.denotes row=true) ∧ (rows.filter u.denotes).length ≤ 1

instance (u : OrderUpdate) (rows : List Row) : Decidable (u.Sole rows) :=
  inferInstanceAs (Decidable (if u.isTerminal=true then ∀ row ∈ rows, u.same row=true → u.denotes row=true
    else (∀ row ∈ rows.find? u.same, u.denotes row=true) ∧ (rows.filter u.denotes).length ≤ 1))

theorem toRow_nodup (u : OrderUpdate) : (u.toRow.map Prod.fst).Nodup := by
  unfold toRow
  split <;> simp

theorem symbolOf_toRow (u : OrderUpdate) : symbolOf u.toRow=some u.symbol := rfl

theorem field_orderId (u : OrderUpdate) : field u.toRow "orderId" =
    if u.orderId=0 then none else some (.num (.fin u.orderId)) := by
  unfold toRow
  split <;> rfl

theorem idOf_toRow (u : OrderUpdate) : idOf u.toRow=if u.orderId=0 then none else some (u.orderId : ℚ) := by
  unfold idOf
  rw [field_orderId]
  by_cases h : u.orderId=0
  · rw [if_pos h,if_pos h]
  · rw [if_neg h,if_neg h]
    exact if_neg (by exact_mod_cast h)

theorem clientOf_toRow (u : OrderUpdate) :
    clientOf u.toRow=if u.clientOrderId="" then none else some u.clientOrderId := rfl

/-- A row of the event's order is one that it matches. -/
theorem same_of_denotes (h : u.denotes row=true) : u.same row=true := by
  unfold denotes at h
  unfold same
  rw [decide_eq_true_eq]
  obtain ⟨-,⟨i,hi,hi'⟩|⟨c,hc,hc'⟩⟩ := of_decide_eq_true h
  · left
    rw [idOf_toRow] at hi'
    by_cases hz : u.orderId=0
    · rw [if_pos hz] at hi'
      cases hi'
    · rw [if_neg hz] at hi'
      cases hi'
      exact field_of_idOf hi
  · right
    rw [clientOf_toRow] at hc'
    by_cases hz : u.clientOrderId=""
    · rw [if_pos hz] at hc'
      cases hc'
    · rw [if_neg hz] at hc'
      cases hc'
      exact ⟨hz,field_of_clientOf hc⟩

/-- Where the event matches its own rows only, it is applied to its own order. -/
theorem apply_eq (h : u.Sole rows) : u.apply rows=u.applyOwn rows := by
  unfold Sole at h
  unfold apply applyOwn
  by_cases ht : u.isTerminal=true
  · rw [if_pos ht] at h
    rw [if_pos ht,if_pos ht]
    apply List.filter_congr
    intro row hrow
    cases hd : u.denotes row with
    | true => rw [same_of_denotes hd]
    | false =>
      cases hs : u.same row with
      | true =>
        rw [h row hrow hs] at hd
        cases hd
      | false => rfl
  · rw [if_neg ht] at h
    rw [if_neg ht,if_neg ht]
    exact mergeInto_congr (find?_eq_of_imp (fun row => same_of_denotes) h.1)

theorem symbolOf_of_denotes (h : u.denotes row=true) : symbolOf row=some u.symbol := by
  obtain ⟨⟨s,hs,hs'⟩,-⟩ := of_decide_eq_true h
  rw [symbolOf_toRow] at hs'
  rw [hs,hs']

theorem symbolOf_merge (h : u.denotes row=true) :
    symbolOf (mergeNonEmpty row u.toRow)=some u.symbol := by
  have hs := symbolOf_of_denotes h
  obtain hf|hf := field_mergeNonEmpty_or u.toRow_nodup row "symbol"
  · unfold symbolOf
    rw [hf]
    rfl
  · unfold symbolOf at hs ⊢
    rw [hf]
    exact hs

/-- A merged row is of no other order than before. -/
theorem sameOrder_merge {r : Row} (hd : u.denotes row=true)
    (h : SameOrder r (mergeNonEmpty row u.toRow)) : SameOrder r row ∨ u.denotes r=true := by
  have hs := symbolOf_of_denotes hd
  have hfield := fun k => field_mergeNonEmpty_or u.toRow_nodup row k
  obtain ⟨⟨t,ht,ht'⟩,hid⟩ := h
  rw [symbolOf_merge hd,Option.some_inj] at ht'
  subst ht'
  obtain ⟨i,hi,hi'⟩|⟨c,hc,hc'⟩ := hid
  · obtain hf|hf := hfield "orderId"
    · refine .inr (decide_eq_true ⟨⟨_,ht,rfl⟩,.inl ⟨i,hi,?_⟩⟩)
      unfold idOf at hi' ⊢
      rwa [hf] at hi'
    · refine .inl ⟨⟨_,ht,hs⟩,.inl ⟨i,hi,?_⟩⟩
      unfold idOf at hi' ⊢
      rwa [hf] at hi'
  · obtain hf|hf := hfield "clientOrderId"
    · refine .inr (decide_eq_true ⟨⟨_,ht,rfl⟩,.inr ⟨c,hc,?_⟩⟩)
      unfold clientOf at hc' ⊢
      rwa [hf] at hc'
    · refine .inl ⟨⟨_,ht,hs⟩,.inr ⟨c,hc,?_⟩⟩
      unfold clientOf at hc' ⊢
      rwa [hf] at hc'

/-- Rows of other symbols stay as they are. -/
theorem filter_applyOwn (u : OrderUpdate) (rows : List Row) :
    (u.applyOwn rows).filter (fun row => symbolOf row ≠ some u.symbol) =
      rows.filter fun row => symbolOf row ≠ some u.symbol := by
  unfold applyOwn
  split
  · rw [List.filter_filter]
    apply List.filter_congr
    intro row _
    cases hd : u.denotes row with
    | true => simp [symbolOf_of_denotes hd]
    | false => simp
  · apply filter_mergeInto
    · intro row h
      simp [symbolOf_of_denotes h]
    · intro row h
      simp [symbolOf_merge h]
    · simp [symbolOf_toRow]

/-- Rows of one order are not made two. -/
theorem apart_applyOwn (h : Apart rows)
    (hone : u.isTerminal=false → (rows.filter u.denotes).length ≤ 1) : Apart (u.applyOwn rows) := by
  unfold applyOwn
  by_cases ht : u.isTerminal=true
  · rw [if_pos ht]
    exact h.sublist List.filter_sublist
  · rw [if_neg ht]
    obtain ⟨hnone,hmerge⟩|⟨before,row,after,rfl,hbefore,hrow,hmerge⟩ :=
      mergeInto_cases u.denotes u.toRow rows
    · rw [hmerge]
      refine List.pairwise_append.mpr ⟨h,List.pairwise_singleton _ _,fun r hr r' hr' => ?_⟩
      rw [List.mem_singleton] at hr'
      subst hr'
      exact of_decide_eq_false (hnone r hr)
    · rw [hmerge]
      have hafter : ∀ r ∈ after, u.denotes r=false := by
        have hlen := hone (by simpa using ht)
        rw [List.filter_append,List.filter_cons_of_pos hrow,List.length_append,List.length_cons] at hlen
        have hnil : after.filter u.denotes=[] := List.length_eq_zero_iff.mp (by omega)
        intro r hr
        simpa using List.filter_eq_nil_iff.mp hnil r hr
      obtain ⟨hb,hra,hbra⟩ := List.pairwise_append.mp h
      obtain ⟨hr,ha⟩ := List.pairwise_cons.mp hra
      refine List.pairwise_append.mpr ⟨hb,List.pairwise_cons.mpr ⟨fun r hr' hsame => ?_,ha⟩,?_⟩
      · obtain hs|hd := sameOrder_merge hrow hsame.symm
        · exact hr r hr' hs.symm
        · rw [hafter r hr'] at hd
          cases hd
      · intro r hr' r' hr'' hsame
        obtain rfl|hr'' := List.mem_cons.mp hr''
        · obtain hs|hd := sameOrder_merge hrow hsame
          · exact hbra r hr' row List.mem_cons_self hs
          · rw [hbefore r hr'] at hd
            cases hd
        · exact hbra r hr' r' (List.mem_cons_of_mem _ hr'') hsame

end OrderUpdate

/-! Positions. -/
namespace PositionUpdate
variable {u : PositionUpdate} {row : Row}

theorem toRow_nodup (u : PositionUpdate) : (u.toRow.map Prod.fst).Nodup := by simp [toRow]

theorem same_toRow (u : PositionUpdate) : u.same u.toRow=true := decide_eq_true ⟨rfl,rfl⟩

theorem same_merge (h : u.same row=true) : u.same (mergeNonEmpty row u.toRow)=true := by
  obtain ⟨hs,hp⟩ := of_decide_eq_true h
  refine decide_eq_true ⟨?_,?_⟩
  · obtain hf|hf := field_mergeNonEmpty_or u.toRow_nodup row "symbol"
    · rw [hf]
      rfl
    · rw [hf,hs]
  · obtain hf|hf := field_mergeNonEmpty_or u.toRow_nodup row "positionSide"
    · rw [hf]
      rfl
    · rw [hf,hp]

theorem filter_apply (u : PositionUpdate) (rows : List Row) (keep : Row → Bool)
    (h : ∀ row, u.same row=true → keep row=false) : (u.apply rows).filter keep=rows.filter keep := by
  unfold apply
  split
  · rw [List.filter_filter]
    apply List.filter_congr
    intro row _
    cases hs : u.same row with
    | true => rw [h row hs]; rfl
    | false => simp
  · exact filter_mergeInto keep h (fun row hrow => h _ (same_merge hrow)) (h _ u.same_toRow)

end PositionUpdate

/-- Some update is of the position. -/
def touched (us : List PositionUpdate) (row : Row) : Bool := us.any fun u => u.same row

theorem filter_positions (us : List PositionUpdate) (rows : List Row) (keep : Row → Bool)
    (h : ∀ row, touched us row=true → keep row=false) :
    (us.foldl (fun rows u => u.apply rows) rows).filter keep=rows.filter keep := by
  induction us generalizing rows with
  | nil => rfl
  | cons u us ih =>
    rw [List.foldl_cons,ih (u.apply rows) fun row hrow => h row (by simp [touched] at hrow ⊢; tauto)]
    exact u.filter_apply rows keep fun row hrow => h row (by simp [touched,hrow])

/-! Runs. -/
namespace AccountStreamCache

/-- One event and its time. -/
def step (c : AccountStreamCache) (e : UserStreamEvent × ℚ) : AccountStreamCache := c.applyEvent e.1 e.2

/-- The event changes its own rows only: the rows of its order, known by its symbol and one of its
ids, and the positions of its symbols and sides. -/
def OwnRows (c c' : AccountStreamCache) : UserStreamEvent → Prop
  | .order u =>
    c'.orders=u.applyOwn c.orders ∧
      (c'.orders.filter fun row => symbolOf row ≠ some u.symbol) =
        (c.orders.filter fun row => symbolOf row ≠ some u.symbol) ∧
      c'.positions=c.positions
  | .position us =>
    c'.orders=c.orders ∧ (c'.positions.filter fun row => !touched us row) =
      c.positions.filter fun row => !touched us row
  | .listenKeyExpired => c'.orders=c.orders ∧ c'.positions=c.positions

/-- An order event matches rows of its order only. -/
def Sole (c : AccountStreamCache) : UserStreamEvent → Prop
  | .order u => u.Sole c.orders
  | _ => True

instance (c : AccountStreamCache) : DecidablePred c.Sole
  | .order u => inferInstanceAs (Decidable (u.Sole c.orders))
  | .position _ | .listenKeyExpired => .isTrue trivial

theorem ownRows {c : AccountStreamCache} {e : UserStreamEvent} (now : ℚ) (h : c.Sole e) :
    OwnRows c (c.applyEvent e now) e := by
  cases e with
  | order u =>
    refine ⟨u.apply_eq h,?_,rfl⟩
    change (u.apply c.orders).filter _=_
    rw [u.apply_eq h]
    exact u.filter_applyOwn c.orders
  | position us => exact ⟨rfl,filter_positions us _ _ fun row h => by simp [h]⟩
  | listenKeyExpired => exact ⟨rfl,rfl⟩

theorem apart_applyEvent {c : AccountStreamCache} {e : UserStreamEvent} (now : ℚ)
    (ha : Apart c.orders) (h : c.Sole e) : Apart (c.applyEvent e now).orders := by
  cases e with
  | order u =>
    change Apart (u.apply c.orders)
    rw [u.apply_eq h]
    apply u.apart_applyOwn ha
    intro ht
    change u.Sole c.orders at h
    unfold OrderUpdate.Sole at h
    rw [if_neg (by simp [ht])] at h
    exact h.2
  | position us => exact ha
  | listenKeyExpired => exact ha

/-- An order of one unit at 100. -/
def orderEvent (symbol clientOrderId : String) (orderId : ℤ) (status : String) :
    UserStreamEvent × ℚ where
  1 := .order {
    symbol := symbol, clientOrderId := clientOrderId, orderId := orderId, side := "BUY"
    orderType := "LIMIT", timeInForce := "GTC", origQty := "1", executedQty := "0"
    lastFilledQty := "0", price := "100", avgPrice := "0", stopPrice := "0", status := status
    executionType := status, positionSide := "BOTH", reduceOnly := false, closePosition := false
    updateTimeMs := 1 }
  2 := 1

end AccountStreamCache
end TradeGate.AccountStream
