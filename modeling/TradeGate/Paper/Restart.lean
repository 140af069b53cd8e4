import TradeGate.Model.Paper
import TradeGate.Paper.Lookup

/-! A restart of the paper backend.  The state read back from the last snapshot is the state that was
left, but for terminal orders that the snapshot had no room for; and nothing that the backend does
depends on these, except a query for one of them.  They are the oldest ones as long as no order takes
the id of another: an id that ends again keeps its old place among the rows. -/
namespace TradeGate

namespace PaperBackend

/-- The same account, as far as the records of `lost` orders do not matter. -/
structure Alike (lost : String → Prop) (b b' : PaperBackend) : Prop where
  wallet : b'.wallet=b.wallet
  positions : b'.positions=b.positions
  orders : b'.orders=b.orders
  marks : b'.marks=b.marks
  leverages : b'.leverages=b.leverages
  closed : ∀ cid, ¬lost cid → b'.closed.get cid=b.closed.get cid

variable {lost : String → Prop} {b b' : PaperBackend}

theorem Alike.refl (b : PaperBackend) : Alike lost b b := ⟨rfl,rfl,rfl,rfl,rfl,fun _ _ => rfl⟩

theorem Alike.record (h : Alike lost b b') (d d' : PaperDeal) : Alike lost (b.record d) (b'.record d') :=
  ⟨h.wallet,h.positions,h.orders,h.marks,h.leverages,h.closed⟩

theorem Alike.finish (h : Alike lost b b') (status : OrderStatusView) (os : List PaperOrder) :
    Alike lost (b.finish status os) (b'.finish status os) := by
  refine ⟨h.wallet,h.positions,h.orders,h.marks,h.leverages,fun cid hcid => ?_⟩
  rw [get_finish,get_finish,h.closed cid hcid]

theorem Alike.amend (h : Alike lost b b') (status : OrderStatusView) (o : PaperOrder) :
    Alike lost (b.amend status o) (b'.amend status o) := by
  refine ⟨h.wallet,h.positions,h.orders,h.marks,h.leverages,fun cid hcid => ?_⟩
  simp only [PaperBackend.amend,Keyed.Map.get_set,h.closed cid hcid]

theorem Alike.position (h : Alike lost b b') (symbol : String) : b'.position symbol=b.position symbol := by
  rw [PaperBackend.position,h.positions,PaperBackend.position]

theorem Alike.mark (h : Alike lost b b') (symbol : String) : b'.mark symbol=b.mark symbol :=
  mark_congr h.marks symbol

theorem Alike.leverageOf (h : Alike lost b b') (symbol : String) :
    b'.leverageOf symbol=b.leverageOf symbol := by
  rw [PaperBackend.leverageOf,h.leverages,PaperBackend.leverageOf]

/-- The other account is the same one with other records and another tape. -/
theorem Alike.cases (h : Alike lost b b') : ∃ c tape ended,
    b'={ b with closed := c, tape := tape, ended := ended } ∧
      ∀ cid, ¬lost cid → c.get cid=b.closed.get cid := by
  obtain ⟨w,ps,os,c,m,l,tape,ended⟩ := b
  obtain ⟨w',ps',os',c',m',l',tape',ended'⟩ := b'
  obtain ⟨rfl,rfl,rfl,rfl,rfl,hc⟩ := h
  exact ⟨c',tape',ended',rfl,hc⟩

theorem Alike.closeAt (h : Alike lost b b') (order : String) (asEntry : Bool) (symbol : String)
    (price : ℚ) (units : Option ℚ) :
    (b'.closeAt order asEntry symbol price units).1=(b.closeAt order asEntry symbol price units).1 ∧
      Alike lost (b.closeAt order asEntry symbol price units).2
        (b'.closeAt order asEntry symbol price units).2 := by
  obtain ⟨c,tape,ended,rfl,hc⟩ := h.cases
  unfold PaperBackend.closeAt
  rw [h.position]
  cases b.position symbol with
  | none => exact ⟨rfl,h⟩
  | some p =>
    dsimp only
    split
    · refine ⟨rfl,?_⟩
      dsimp only
      refine Alike.record (Alike.finish ?_ _ _) _ _
      exact ⟨rfl,rfl,rfl,rfl,rfl,hc⟩
    · exact ⟨rfl,⟨rfl,rfl,rfl,rfl,rfl,hc⟩⟩

theorem Alike.fill (h : Alike lost b b') (order symbol : String) (side : Direction) (qty price : ℚ)
    (leverage : ℕ) : Alike lost (b.fill order symbol side qty price leverage)
      (b'.fill order symbol side qty price leverage) := by
  obtain ⟨c,tape,ended,rfl,hc⟩ := h.cases
  unfold PaperBackend.fill
  rw [h.position]
  cases b.position symbol with
  | none => exact ⟨rfl,rfl,rfl,rfl,rfl,hc⟩
  | some p =>
    dsimp only
    split
    · exact ⟨rfl,rfl,rfl,rfl,rfl,hc⟩
    · refine (Alike.closeAt ?_ _ _ _ _ _).2
      exact ⟨rfl,rfl,rfl,rfl,rfl,hc⟩

theorem Alike.placeEntry (h : Alike lost b b') (req : EntryRequest) :
    (b'.placeEntry req).1=(b.placeEntry req).1 ∧
      Alike lost (b.placeEntry req).2 (b'.placeEntry req).2 := by
  have hfill := h.fill req.clientOrderId req.symbol req.direction (Js.value req.qty)
    (b.mark req.symbol) (b.leverageOf req.symbol)
  unfold PaperBackend.placeEntry
  rw [h.mark,h.leverageOf]
  dsimp only
  split_ifs
  · exact ⟨rfl,hfill⟩
  · exact ⟨rfl,⟨h.wallet,h.positions,congrArg (· ++ _) h.orders,h.marks,h.leverages,h.closed⟩⟩
  · exact ⟨rfl,h⟩
  · exact ⟨rfl,hfill⟩
  · exact ⟨rfl,h⟩

theorem Alike.without (h : Alike lost b b') (o : PaperOrder) :
    Alike lost { b with orders := b.orders.erase o } { b' with orders := b'.orders.erase o } :=
  ⟨h.wallet,h.positions,congrArg (·.erase o) h.orders,h.marks,h.leverages,h.closed⟩

theorem Alike.protective (h : Alike lost b b') (symbol : String) (position : Direction)
    (price id : String) (type : PaperOrderType) :
    Alike lost (b.protective symbol position price id type).2
      (b'.protective symbol position price id type).2 :=
  ⟨h.wallet,h.positions,congrArg (· ++ _) h.orders,h.marks,h.leverages,h.closed⟩

theorem Alike.fillResting {symbol : String} {os : List PaperOrder} (h : Alike lost b b') :
    (PaperBackend.fillResting symbol os b').1=(PaperBackend.fillResting symbol os b).1 ∧
      Alike lost (PaperBackend.fillResting symbol os b).2 (PaperBackend.fillResting symbol os b').2 := by
  induction os generalizing b b' with
  | nil => exact ⟨rfl,h⟩
  | cons o os ih =>
    unfold PaperBackend.fillResting
    rw [h.mark,h.leverageOf]
    split
    · have hf := h.fill o.clientOrderId symbol o.positionSide (Js.value o.qty)
        (Js.value (o.price.getD "0")) (b.leverageOf symbol)
      obtain ⟨he,ha⟩ := ih ((hf.without o).finish
        ⟨.filled,some (Js.text (Js.value (o.price.getD "0"))),o.qty⟩ [o])
      exact ⟨congrArg (_ :: ·) he,ha⟩
    · exact ih h

theorem Alike.trigger (h : Alike lost b b') (symbol : String) :
    (b'.trigger symbol).1=(b.trigger symbol).1 ∧ Alike lost (b.trigger symbol).2 (b'.trigger symbol).2 := by
  unfold PaperBackend.trigger
  rw [h.position,h.orders,h.mark]
  cases b.position symbol with
  | none => exact ⟨rfl,h⟩
  | some p =>
    dsimp only
    split
    · exact ⟨rfl,h⟩
    next o ho =>
      obtain ⟨hpnl,hc⟩ := (h.record (.triggered o (b.mark symbol) p.side)
        (.triggered o (b.mark symbol) p.side)).closeAt o.clientOrderId false symbol
        (Js.value (o.stopPrice.getD "0")) none
      exact ⟨by rw [hpnl],hc.amend _ _⟩

theorem Alike.setMark (h : Alike lost b b') (symbol mark : String) :
    Alike lost (b.setMark symbol mark) (b'.setMark symbol mark) :=
  ⟨h.wallet,h.positions,h.orders,congrArg (·.set symbol mark) h.marks,h.leverages,h.closed⟩

theorem Alike.tick (h : Alike lost b b') (symbol mark : String) :
    (b'.tick symbol mark).1=(b.tick symbol mark).1 ∧
      Alike lost (b.tick symbol mark).2 (b'.tick symbol mark).2 := by
  have hm := h.setMark symbol mark
  have hresting : (b'.setMark symbol mark).resting symbol=(b.setMark symbol mark).resting symbol := by
    rw [resting,hm.orders,resting]
  obtain ⟨he,hr⟩ := @Alike.fillResting _ _ _ symbol ((b.setMark symbol mark).resting symbol) hm
  obtain ⟨ht,ha⟩ := hr.trigger symbol
  unfold PaperBackend.tick
  dsimp only
  rw [hresting,he,ht]
  exact ⟨rfl,ha⟩

theorem Alike.cancelAll (h : Alike lost b b') (symbol : String) :
    Alike lost (b.cancelAll symbol).2 (b'.cancelAll symbol).2 := by
  obtain ⟨c,tape,ended,rfl,hc⟩ := h.cases
  refine Alike.finish ?_ _ _
  exact ⟨rfl,rfl,rfl,rfl,rfl,hc⟩

theorem Alike.cancelOrder (h : Alike lost b b') (symbol cid : String) :
    (b'.cancelOrder symbol cid).1=(b.cancelOrder symbol cid).1 ∧
      Alike lost (b.cancelOrder symbol cid).2 (b'.cancelOrder symbol cid).2 := by
  unfold PaperBackend.cancelOrder
  rw [h.orders]
  split
  · exact ⟨rfl,h⟩
  next o ho =>
    have hw := (h.without o).finish canceledView [o]
    rw [h.orders] at hw
    exact ⟨rfl,hw⟩

theorem Alike.closePosition (h : Alike lost b b') (symbol id : String) :
    (b'.closePosition symbol id).1=(b.closePosition symbol id).1 ∧
      Alike lost (b.closePosition symbol id).2 (b'.closePosition symbol id).2 := by
  unfold PaperBackend.closePosition
  rw [h.position,h.mark]
  obtain ⟨hpnl,hc⟩ := h.closeAt id false symbol (b.mark symbol) none
  split
  · exact ⟨rfl,h⟩
  · dsimp only
    exact ⟨by rw [hpnl],hc⟩

theorem Alike.reducePosition (h : Alike lost b b') (symbol qty id : String) :
    (b'.reducePosition symbol qty id).1=(b.reducePosition symbol qty id).1 ∧
      Alike lost (b.reducePosition symbol qty id).2 (b'.reducePosition symbol qty id).2 := by
  unfold PaperBackend.reducePosition
  rw [h.position,h.mark]
  split
  · exact ⟨rfl,h⟩
  · exact ⟨rfl,(h.closeAt id false symbol (b.mark symbol) (some (Js.value qty))).2⟩

theorem Alike.unrealized (h : Alike lost b b') : b'.unrealized=b.unrealized :=
  unrealized_congr h.marks

theorem Alike.account (h : Alike lost b b') : b'.account=b.account := by
  have hmark : b'.mark=b.mark := funext h.mark
  simp only [PaperBackend.account,equity,h.wallet,h.positions,h.unrealized,h.orders,hmark]

theorem Alike.getOrder (h : Alike lost b b') {cid : String} (hcid : ¬lost cid) :
    b'.getOrder cid=b.getOrder cid := by
  unfold PaperBackend.getOrder
  rw [h.orders,h.closed cid hcid]

end PaperBackend

namespace PaperProcess
open PaperBackend

variable {lost : String → Prop} {p p' : PaperProcess}

/-- A call is answered alike on alike accounts, which stay alike. -/
theorem perform_alike (h : Alike lost p.sim p'.sim) (c : PaperCall) :
    (p'.perform c).1=(p.perform c).1 ∧ Alike lost (p.perform c).2.sim (p'.perform c).2.sim := by
  cases c with
  | setMark symbol mark _ => exact ⟨rfl,h.setMark symbol mark⟩
  | setLeverage symbol leverage =>
    exact ⟨rfl,h.wallet,h.positions,h.orders,h.marks,congrArg (·.set symbol leverage) h.leverages,h.closed⟩
  | placeStop symbol position stopPrice id => exact ⟨rfl,h.protective _ _ _ _ _⟩
  | placeTakeProfit symbol position tp id => exact ⟨rfl,h.protective _ _ _ _ _⟩
  | cancelAll symbol => exact ⟨rfl,h.cancelAll symbol⟩
  | tick symbol mark _ => exact ⟨congrArg PaperReply.events (h.tick symbol mark).1,(h.tick symbol mark).2⟩
  | placeEntry req _ =>
    obtain ⟨hr,ha⟩ := h.placeEntry req
    simp only [perform,hr]
    split
    · exact ⟨trivial,h⟩
    · exact ⟨trivial,ha⟩
  | closePosition symbol id =>
    obtain ⟨hr,ha⟩ := h.closePosition symbol id
    simp only [perform,hr,h.position]
    split
    · exact ⟨trivial,h⟩
    · exact ⟨trivial,ha⟩
  | reducePosition symbol qty id _ =>
    obtain ⟨hr,ha⟩ := h.reducePosition symbol qty id
    simp only [perform,hr,h.position]
    split
    · exact ⟨trivial,h⟩
    · exact ⟨trivial,ha⟩
  | cancelOrder symbol cid =>
    obtain ⟨hr,ha⟩ := h.cancelOrder symbol cid
    simp only [perform,hr]
    split
    · exact ⟨trivial,h⟩
    · exact ⟨trivial,ha⟩

/-- The request is no query for a lost order. -/
def Spares (lost : String → Prop) : PaperRequest → Prop
  | .getOrder _ cid => ¬lost cid
  | _ => True

theorem answer_alike (h : Alike lost p.sim p'.sim) (r : PaperRequest) :
    (Spares lost r → (p'.answer r).1=(p.answer r).1) ∧
      Alike lost (p.answer r).2.sim (p'.answer r).2.sim := by
  cases r with
  | call c => exact ⟨fun _ => (perform_alike h c).1,(perform_alike h c).2⟩
  | markPrice symbol =>
    refine ⟨fun _ => ?_,h⟩
    simp only [answer,PaperBackend.markPrice,h.marks]
  | account =>
    refine ⟨fun _ => ?_,h⟩
    simp only [answer,h.account,available,unrealizedPnl,h.wallet,h.positions,h.unrealized]
  | getOrder symbol cid => exact ⟨fun hs => congrArg PaperReply.order (h.getOrder hs),h⟩

/-- Alike accounts answer alike from here on. -/
theorem answers_alike (h : Alike lost p.sim p'.sim) (rs : List PaperRequest) (n : ℕ)
    (hs : ∀ r ∈ rs[n]?, Spares lost r) : (p'.answers rs)[n]?=(p.answers rs)[n]? := by
  induction rs generalizing p p' n with
  | nil => rfl
  | cons r rs ih =>
    obtain ⟨hr,ha⟩ := answer_alike h r
    cases n with
    | zero => simp only [answers,List.getElem?_cons_zero,hr (hs r rfl)]
    | succ n =>
      simp only [answers,List.getElem?_cons_succ]
      exact ih ha n hs

end PaperProcess

/-! The rows of terminal orders stand in the order in which the orders ended. -/
namespace PaperBackend

/-- The id is that of no order on the book and of no terminal order that is known. -/
def Unused (b : PaperBackend) (cid : String) : Prop := b.closed.get cid=none ∧ b.ordersUnder cid=[]

/-- The call brings no order to the book under the id of another. -/
def Mints (b : PaperBackend) : PaperCall → Prop
  | .placeEntry req _ => 0<b.mark req.symbol → req.entry=.limit →
      ¬req.direction.crosses (b.mark req.symbol) (Js.value (req.limitPrice.getD "0")) →
        b.Unused req.clientOrderId
  | .placeStop _ _ _ id => b.Unused id
  | .placeTakeProfit _ _ _ id => b.Unused id
  | _ => True

instance (b : PaperBackend) (cid : String) : Decidable (b.Unused cid) :=
  inferInstanceAs (Decidable (_ ∧ _))

instance (b : PaperBackend) : ∀ c, Decidable (b.Mints c)
  | .placeEntry _ _ => inferInstanceAs (Decidable (_ → _ → ¬Direction.crosses _ _ _ → _))
  | .placeStop _ _ _ id | .placeTakeProfit _ _ _ id => inferInstanceAs (Decidable (b.Unused id))
  | .setMark _ _ _ | .setLeverage _ _ | .closePosition _ _ | .reducePosition _ _ _ _ | .cancelAll _
  | .cancelOrder _ _ | .tick _ _ _ => .isTrue trivial

/-- The terminal orders are listed by age, and no order on the book shares an id with another. -/
structure Aged (b : PaperBackend) : Prop where
  ages : b.ended=b.closed.keys
  once : (b.orders.map PaperOrder.clientOrderId).Nodup
  live : ∀ o ∈ b.orders, o.clientOrderId ∉ b.closed.keys
  entries : ∀ o ∈ b.orders, o.type=.limit → o.reduceOnly=false

variable {b b' : PaperBackend}

theorem Aged.congr (h : b.Aged) (ho : b'.orders=b.orders) (hc : b'.closed=b.closed)
    (he : b'.ended=b.ended) : b'.Aged where
  ages := by rw [he,hc,h.ages]
  once := by rw [ho]; exact h.once
  live := by rw [ho,hc]; exact h.live
  entries := by rw [ho]; exact h.entries

theorem Aged.eq_of_id (h : b.Aged) {o o' : PaperOrder} (ho : o ∈ b.orders) (ho' : o' ∈ b.orders)
    (hid : o.clientOrderId=o'.clientOrderId) : o=o' :=
  List.inj_on_of_nodup_map h.once ho ho' hid

/-- New ids join at the end of the rows. -/
theorem keys_foldl_set (status : OrderStatusView) {ids : List String}
    (c : Keyed.Map String OrderStatusView) (h : (c.keys ++ ids).Nodup) :
    (ids.foldl (fun c id => c.set id status) c).keys=c.keys ++ ids := by
  induction ids generalizing c with
  | nil => exact (List.append_nil _).symm
  | cons id ids ih =>
    rw [List.append_cons] at h
    have hnew : id ∉ c.keys := fun hmem =>
      (List.nodup_append.mp (List.nodup_append.mp h).1).2.2 _ hmem _ (List.mem_singleton_self _) rfl
    have hset := Keyed.Map.keys_set_of_new hnew status
    rw [List.foldl_cons,ih _ (by rw [hset]; exact h),hset,← List.append_cons]

/-- And at the end of the ids by age. -/
theorem foldl_endedLast {ids : List String} (ended : List String) (h : (ended ++ ids).Nodup) :
    ids.foldl endedLast ended=ended ++ ids := by
  induction ids generalizing ended with
  | nil => exact (List.append_nil _).symm
  | cons id ids ih =>
    rw [List.append_cons] at h
    have hnew : id ∉ ended := fun hmem =>
      (List.nodup_append.mp (List.nodup_append.mp h).1).2.2 _ hmem _ (List.mem_singleton_self _) rfl
    have hlast : endedLast ended id=ended ++ [id] := by rw [endedLast,List.erase_of_not_mem hnew]
    rw [List.foldl_cons,hlast,ih _ h,← List.append_cons]

/-- Some orders leave the book and the others stay. -/
theorem Aged.leave (h : b.Aged) {gone : List PaperOrder} {status : OrderStatusView}
    (hg : gone.Sublist b.orders) (hr : b'.orders.Sublist b.orders) (hapart : ∀ o ∈ b'.orders, o ∉ gone)
    (hc : b'.closed=(b.finish status gone).closed) (he : b'.ended=(b.finish status gone).ended) :
    b'.Aged := by
  have hids : (gone.map PaperOrder.clientOrderId).Nodup := (hg.map _).nodup h.once
  have hnew : (b.closed.keys ++ gone.map PaperOrder.clientOrderId).Nodup := by
    refine List.nodup_append.mpr ⟨b.closed.nodup_keys,hids,?_⟩
    rintro id hid _ hmem rfl
    obtain ⟨o,ho,rfl⟩ := List.mem_map.mp hmem
    exact h.live o (hg.subset ho) hid
  have hkeys : b'.closed.keys=b.closed.keys ++ gone.map PaperOrder.clientOrderId := by
    rw [hc,finish,← List.foldl_map (f := PaperOrder.clientOrderId)
      (g := fun (c : Keyed.Map String OrderStatusView) id => c.set id status)]
    exact keys_foldl_set status b.closed hnew
  refine ⟨?_,(hr.map _).nodup h.once,fun o ho => ?_,fun o ho => h.entries o (hr.subset ho)⟩
  · have hfold : (b.finish status gone).ended=
        (gone.map PaperOrder.clientOrderId).foldl endedLast b.closed.keys := by
      rw [finish,List.foldl_map,h.ages]
    rw [he,hfold,foldl_endedLast _ hnew,hkeys]
  · rw [hkeys,List.mem_append,not_or]
    refine ⟨h.live o (hr.subset ho),fun hmem => ?_⟩
    obtain ⟨o',ho',hid⟩ := List.mem_map.mp hmem
    exact hapart o ho (h.eq_of_id (hg.subset ho') (hr.subset ho) hid ▸ ho')

/-- The orders of a kind leave the book. -/
theorem Aged.withdraw {P : PaperOrder → Prop} [DecidablePred P] (h : b.Aged) {status : OrderStatusView}
    (ho : b'.orders=b.orders.filter fun o => ¬P o)
    (hc : b'.closed=(b.finish status (b.orders.filter fun o => P o)).closed)
    (he : b'.ended=(b.finish status (b.orders.filter fun o => P o)).ended) : b'.Aged := by
  refine h.leave List.filter_sublist (ho ▸ List.filter_sublist) (fun o hin hgone => ?_) hc he
  rw [ho] at hin
  have hP := (List.mem_filter.mp hgone).2
  have hnot := (List.mem_filter.mp hin).2
  simp only [decide_eq_true_eq] at hP hnot
  exact hnot hP

/-- One order leaves the book. -/
theorem Aged.remove (h : b.Aged) {o : PaperOrder} {status : OrderStatusView} (hin : o ∈ b.orders)
    (ho : b'.orders=b.orders.erase o) (hc : b'.closed=(b.finish status [o]).closed)
    (he : b'.ended=(b.finish status [o]).ended) : b'.Aged := by
  refine h.leave (List.singleton_sublist.mpr hin) (ho ▸ List.erase_sublist) (fun x hx hxo => ?_) hc he
  rw [ho,List.mem_singleton.mp hxo,(h.once.of_map _).mem_erase_iff] at hx
  exact hx.1 rfl

theorem Aged.closeAt (h : b.Aged) (order : String) (asEntry : Bool) (symbol : String) (price : ℚ)
    (units : Option ℚ) : (b.closeAt order asEntry symbol price units).2.Aged := by
  unfold PaperBackend.closeAt
  split
  · exact h
  · dsimp only
    split
    · exact h.withdraw (P := fun o => o.symbol=symbol ∧ o.reduceOnly) rfl rfl rfl
    · exact h.congr rfl rfl rfl

theorem Aged.fill (h : b.Aged) (order symbol : String) (side : Direction) (units price : ℚ)
    (leverage : ℕ) : (b.fill order symbol side units price leverage).Aged := by
  cases hp : b.position symbol with
  | none =>
    rw [fill_of_none order price leverage hp]
    exact h.congr rfl rfl rfl
  | some p =>
    by_cases hs : p.side=side
    · rw [fill_of_side order price leverage hp hs]
      exact h.congr rfl rfl rfl
    · simp only [PaperBackend.fill,hp,if_neg hs]
      exact Aged.closeAt (b := { b with wallet := b.wallet-price*units*feeRate }) (h.congr rfl rfl rfl)
        order true symbol price (some units)

/-- A fill leaves the entries on the book. -/
theorem Aged.mem_fill (h : b.Aged) {o : PaperOrder} (ho : o ∈ b.orders) (hlim : o.type=.limit)
    (order symbol : String) (side : Direction) (units price : ℚ) (leverage : ℕ) :
    o ∈ (b.fill order symbol side units price leverage).orders := by
  have hunder : (b.fill order symbol side units price leverage).ordersUnder o.clientOrderId=
      b.ordersUnder o.clientOrderId :=
    fill_ordersUnder order symbol side units price leverage fun x hx => by
      obtain ⟨hin,hid⟩ := mem_ordersUnder.mp hx
      rw [h.eq_of_id hin ho hid]
      exact h.entries o ho hlim
  exact (mem_ordersUnder.mp (hunder ▸ mem_ordersUnder.mpr ⟨ho,rfl⟩)).1

theorem Aged.fillResting {symbol : String} {os : List PaperOrder} (h : b.Aged)
    (hin : ∀ o ∈ os, o ∈ b.orders) (hlim : ∀ o ∈ os, o.type=.limit) (hone : os.Nodup) :
    (PaperBackend.fillResting symbol os b).2.Aged := by
  induction os generalizing b with
  | nil => exact h
  | cons o os ih =>
    obtain ⟨hino,hinos⟩ := List.forall_mem_cons.mp hin
    obtain ⟨hlimo,hlimos⟩ := List.forall_mem_cons.mp hlim
    obtain ⟨hnot,hos⟩ := List.nodup_cons.mp hone
    unfold PaperBackend.fillResting
    split
    · have hmem := fun x hx hl => h.mem_fill (o := x) hx hl o.clientOrderId symbol o.positionSide
        (Js.value o.qty) (Js.value (o.price.getD "0")) (b.leverageOf symbol)
      refine ih ((h.fill _ _ _ _ _ _).remove (hmem o hino hlimo) rfl rfl rfl) (fun x hx => ?_) hlimos hos
      have hne : x ≠ o := fun he => hnot (he ▸ hx)
      exact (List.mem_erase_of_ne hne).mpr (hmem x (hinos x hx) (hlimos x hx))
    · exact ih h hinos hlimos hos

/-- The protective order that goes off leaves the book with the position it closes. -/
theorem Aged.trigger (h : b.Aged) (symbol : String) : (b.trigger symbol).2.Aged := by
  unfold PaperBackend.trigger
  split
  · exact h
  next p hp =>
    split
    · exact h
    next o ho =>
      have hin := List.mem_of_find?_eq_some ho
      have hfound := List.find?_some ho
      simp only [decide_eq_true_eq] at hfound
      obtain ⟨hsym,hred,-⟩ := hfound
      have hrec : (b.record (.triggered o (b.mark symbol) p.side)).Aged := h.congr rfl rfl rfl
      have hclose := hrec.closeAt o.clientOrderId false symbol (Js.value (o.stopPrice.getD "0")) none
      have hknown : o.clientOrderId ∈ ((b.record (.triggered o (b.mark symbol) p.side)).closeAt
          o.clientOrderId false symbol (Js.value (o.stopPrice.getD "0")) none).2.closed.keys := by
        have hp' : (b.record (.triggered o (b.mark symbol) p.side)).position symbol=some p := hp
        have hall : p.qty-dust ≤ min p.qty p.qty := by
          rw [min_self]
          exact sub_le_self _ (by decide +kernel)
        simp only [PaperBackend.closeAt,hp',Option.getD_none,if_pos hall]
        refine Decidable.byContradiction fun hnot => ?_
        have hnone := Keyed.Map.get_eq_none_iff.mpr hnot
        have hget := get_finish { b with orders := b.orders.filter fun x => ¬(x.symbol=symbol ∧ x.reduceOnly) }
          canceledView (b.orders.filter fun x => x.symbol=symbol ∧ x.reduceOnly) o.clientOrderId
        rw [if_pos ⟨o,List.mem_filter.mpr ⟨hin,by simp [hsym,hred]⟩,rfl⟩] at hget
        exact absurd (hnone.symm.trans hget) (Option.some_ne_none _).symm
      have hkeys := Keyed.Map.keys_set_of_mem hknown
        ⟨.filled,some (Js.text (Js.value (o.stopPrice.getD "0"))),Js.text p.qty⟩
      exact ⟨hclose.ages.trans hkeys.symm,hclose.once,fun x hx => hkeys ▸ hclose.live x hx,hclose.entries⟩

theorem Aged.tick (h : b.Aged) (symbol mark : String) : (b.tick symbol mark).2.Aged := by
  have hm : (b.setMark symbol mark).Aged := h.congr rfl rfl rfl
  refine Aged.trigger (hm.fillResting (fun o ho => List.mem_of_mem_filter ho) (fun o ho => ?_)
    (List.filter_sublist.nodup (hm.once.of_map _))) symbol
  have hlim := (List.mem_filter.mp ho).2
  simp only [decide_eq_true_eq] at hlim
  exact hlim.2

/-- A new order joins the book. -/
theorem Aged.joined (h : b.Aged) {o : PaperOrder} (hnew : b.Unused o.clientOrderId)
    (ht : o.type=.limit → o.reduceOnly=false) (ho : b'.orders=b.orders ++ [o]) (hc : b'.closed=b.closed)
    (he : b'.ended=b.ended) : b'.Aged := by
  obtain ⟨hget,hunder⟩ := hnew
  refine ⟨by rw [he,hc,h.ages],?_,?_,?_⟩
  · rw [ho,List.map_append,List.nodup_append]
    refine ⟨h.once,List.nodup_singleton _,?_⟩
    rintro id hid _ hmem rfl
    obtain ⟨x,hx,hxid⟩ := List.mem_map.mp hid
    have hone := List.mem_singleton.mp hmem
    exact List.ne_nil_of_mem (mem_ordersUnder.mpr ⟨hx,hxid.trans hone⟩) hunder
  · rw [ho,hc,List.forall_mem_append]
    exact ⟨h.live,List.forall_mem_singleton.mpr (Keyed.Map.get_eq_none_iff.mp hget)⟩
  · rw [ho,List.forall_mem_append]
    exact ⟨h.entries,List.forall_mem_singleton.mpr ht⟩

theorem Aged.placeEntry (h : b.Aged) {req : EntryRequest} (units : Js.positive req.qty)
    (hm : b.Mints (.placeEntry req units)) : (b.placeEntry req).2.Aged := by
  unfold PaperBackend.placeEntry
  dsimp only
  split_ifs with hmark hlim hprice hcross
  · exact h.fill _ _ _ _ _ _
  · exact h.joined (o := ⟨req.symbol,req.direction,req.clientOrderId,.limit,
      req.direction.orderSide,req.qty,req.limitPrice,none,false⟩) (hm hmark hlim hcross)
      (fun _ => rfl) rfl rfl rfl
  · exact h
  · exact h.fill _ _ _ _ _ _
  · exact h

theorem Aged.perform (h : b.Aged) {c : PaperCall} (hm : b.Mints c) : (b.perform c).Aged := by
  cases c with
  | setMark symbol mark _ => exact h.congr rfl rfl rfl
  | setLeverage symbol leverage => exact h.congr rfl rfl rfl
  | placeEntry req units => exact h.placeEntry units hm
  | placeStop symbol position stopPrice id =>
    exact h.joined (o := ⟨symbol,position,id,.stopMarket,position.opposite.orderSide,"0",none,
      some stopPrice,true⟩) hm nofun rfl rfl rfl
  | placeTakeProfit symbol position tp id =>
    exact h.joined (o := ⟨symbol,position,id,.takeProfitMarket,position.opposite.orderSide,"0",none,
      some tp,true⟩) hm nofun rfl rfl rfl
  | closePosition symbol id =>
    simp only [PaperBackend.perform,closePosition]
    split
    · exact h
    · exact h.closeAt id false symbol _ none
  | reducePosition symbol qty id _ =>
    simp only [PaperBackend.perform,reducePosition]
    split
    · exact h
    · exact h.closeAt id false symbol _ _
  | cancelAll symbol => exact h.withdraw (P := fun o => o.symbol=symbol) rfl rfl rfl
  | cancelOrder symbol id =>
    simp only [PaperBackend.perform,cancelOrder]
    split
    · exact h
    next o ho => exact h.remove (List.mem_of_find?_eq_some ho) rfl rfl rfl
  | tick symbol mark _ => exact h.tick symbol mark

/-- The terminal orders older than the newest that travel in a snapshot. -/
def forgotten (b : PaperBackend) : List String := b.ended.take (b.ended.length-closedKeep)

/-- The terminal orders that a snapshot has no room for. -/
def cutOff (b : PaperBackend) : List String := b.closed.keys.take (b.closed.rows.length-closedKeep)

theorem Aged.forgotten_eq (h : b.Aged) : b.forgotten=b.cutOff := by
  rw [forgotten,cutOff,h.ages,Keyed.Map.keys,List.length_map]

theorem snapshot_closed (b : PaperBackend) :
    b.snapshot.closed=b.closed.rows.drop (b.closed.rows.length-closedKeep) := by
  unfold snapshot
  dsimp only
  split
  · rfl
  next h => rw [Nat.sub_eq_zero_of_le (not_lt.mp h),List.drop_zero]

/-- What travels in a snapshot is listed by age as well. -/
theorem Aged.restore (h : b.Aged) (b₀ : PaperBackend) : (b₀.restore (some b.snapshot)).Aged := by
  have hversion : ¬b.snapshot.version ≠ paperSnapshotVersion := fun h => h rfl
  have hsub : b.snapshot.closed.Sublist b.closed.rows := snapshot_closed b ▸ List.drop_sublist ..
  have hkeys : Keyed.Map.keys (Keyed.Table.ofRows b.snapshot.closed)=b.snapshot.closed.map Prod.fst := by
    rw [Keyed.Map.keys,Keyed.Table.rows_ofRows ((hsub.map _).nodup b.closed.nodup)]
  simp only [PaperBackend.restore,if_neg hversion]
  refine ⟨hkeys.symm,h.once,fun o ho hmem => h.live o ho ?_,h.entries⟩
  exact (hsub.map _).subset (hkeys ▸ hmem)

end PaperBackend

namespace PaperProcess
open PaperBackend

variable {p : PaperProcess} {equity : ℚ}

/-- The kept entries are looked up as before. -/
theorem get_ofRows_drop {β : Type} (m : Keyed.Map String β) (n : ℕ) {k : String}
    (hk : k ∉ m.keys.take n) :
    Keyed.Map.get (Keyed.Table.ofRows (m.rows.drop n) : Keyed.Map String β) k=m.get k := by
  rw [Keyed.Map.keys,← List.map_take] at hk
  have hrows := @Keyed.Table.rows_ofRows _ _ _ (Prod.fst : String × β → String) (m.rows.drop n)
    (((List.drop_sublist n m.rows).map Prod.fst).nodup m.nodup)
  have hnone : (m.rows.take n).find? (fun a => decide (a.1=k))=none := by
    refine List.find?_eq_none.mpr fun a ha hak => hk ?_
    exact of_decide_eq_true hak ▸ List.mem_map_of_mem ha
  unfold Keyed.Map.get Keyed.Table.lookup
  rw [hrows]
  conv_rhs => rw [← List.take_append_drop n m.rows,List.find?_append,hnone,Option.none_or]

/-- What is read back from a snapshot is the state it was taken of. -/
theorem restore_snapshot (b₀ b : PaperBackend) :
    Alike (· ∈ b.cutOff) b (b₀.restore (some b.snapshot)) := by
  have hversion : ¬b.snapshot.version ≠ paperSnapshotVersion := fun h => h rfl
  simp only [restore,if_neg hversion]
  refine ⟨rfl,Keyed.Table.ofRows_rows _,rfl,Keyed.Table.ofRows_rows _,Keyed.Table.ofRows_rows _,
    fun cid hcid => ?_⟩
  simp only [snapshot_closed]
  exact get_ofRows_drop b.closed _ hcid

/-- The last snapshot is one of the present state. -/
def Synced (equity : ℚ) (p : PaperProcess) : Prop :=
  Alike (· ∈ p.sim.cutOff) p.sim (start equity p.blob).sim

theorem save_synced (equity : ℚ) (sim : PaperBackend) : Synced equity (save sim) :=
  restore_snapshot (PaperBackend.fresh equity) sim

/-- Every call saves what it changes. -/
theorem perform_synced (h : Synced equity p) (c : PaperCall) : Synced equity (p.perform c).2 := by
  cases c with
  | setMark | setLeverage | placeStop | placeTakeProfit | cancelAll | tick => exact save_synced equity _
  | placeEntry | closePosition | reducePosition | cancelOrder =>
    simp only [perform]
    split
    · exact h
    · exact save_synced equity _

theorem live_synced (h : Synced equity p) (r : Option PaperRequest) : Synced equity (live equity p r) := by
  cases r with
  | none => exact Alike.refl _
  | some r =>
    cases r with
    | call c => exact perform_synced h c
    | markPrice symbol => exact h
    | account => exact h
    | getOrder symbol cid => exact h

/-- The process lists its terminal orders by age, and so does one that reads its last snapshot. -/
structure Aged (equity : ℚ) (p : PaperProcess) : Prop where
  sim : p.sim.Aged
  blob : (start equity p.blob).sim.Aged

/-- The event brings no order to the book under the id of another. -/
def Mints (p : PaperProcess) : Option PaperRequest → Prop
  | some (.call c) => p.sim.Mints c
  | _ => True

instance (p : PaperProcess) : ∀ r, Decidable (p.Mints r)
  | some (.call c) => inferInstanceAs (Decidable (p.sim.Mints c))
  | none | some (.markPrice _) | some .account | some (.getOrder _ _) => .isTrue trivial

theorem fresh_aged (equity : ℚ) : (PaperBackend.fresh equity).Aged :=
  ⟨rfl,List.nodup_nil,nofun,nofun⟩

theorem save_aged {sim : PaperBackend} (h : sim.Aged) : Aged equity (save sim) := ⟨h,h.restore _⟩

theorem perform_aged (h : Aged equity p) {c : PaperCall} (hm : p.sim.Mints c) :
    Aged equity (p.perform c).2 := by
  have hs := h.sim.perform hm
  cases c with
  | setMark | setLeverage | placeStop | placeTakeProfit | cancelAll | tick => exact save_aged hs
  | placeEntry | closePosition | reducePosition | cancelOrder =>
    simp only [perform]
    split
    · exact h
    · exact save_aged hs

theorem live_aged (h : Aged equity p) {r : Option PaperRequest} (hm : p.Mints r) :
    Aged equity (live equity p r) := by
  cases r with
  | none => exact ⟨h.blob,h.blob⟩
  | some r =>
    cases r with
    | call c => exact perform_aged h hm
    | markPrice symbol => exact h
    | account => exact h
    | getOrder symbol cid => exact h

/-- Whatever was asked of the backend, and however often it was restarted: as long as no order took
the id of another, a restart shows in no later answer, but to queries for terminal orders older than
the newest 500. -/
theorem restart_invisible (equity : ℚ) (past : List (Option PaperRequest)) (rs : List PaperRequest)
    (n : ℕ) (hmint : Machine.Throughout (live equity) Mints (start equity none) past) :
    let p := Machine.run (live equity) (start equity none) past
    (∀ r ∈ rs[n]?, Spares (· ∈ p.sim.forgotten) r) →
      ((start equity p.blob).answers rs)[n]?=(p.answers rs)[n]? := by
  have h₀ : Synced equity (start equity none) ∧ Aged equity (start equity none) :=
    ⟨Alike.refl _,fresh_aged equity,fresh_aged equity⟩
  have h := Machine.run_invariant (I := fun p => Synced equity p ∧ Aged equity p)
    (fun _ r h hm => ⟨live_synced h.1 r,live_aged h.2 hm⟩) h₀ hmint
  intro p hspares
  refine answers_alike (p := p) h.1 rs n fun r hr => ?_
  rw [← h.2.sim.forgotten_eq]
  exact hspares r hr

/-- A process whose position was stopped out. -/
def stoppedProcess : PaperProcess :=
  Machine.run (live 10000) (start 10000 none) (stoppedOut.map fun c => some (.call c))

theorem stop_known_after_restart :
    ((start 10000 stoppedProcess.blob).answers [.account,.getOrder "BTCUSDT" "s1"])[1]?=
      some (.order (some ⟨.filled,some "48000","3"⟩)) := by
  have hkept : "s1" ∉ stoppedProcess.sim.forgotten := by decide +kernel
  have h := restart_invisible 10000 (stoppedOut.map fun c => some (.call c))
    [.account,.getOrder "BTCUSDT" "s1"] 1 (by decide +kernel) fun r hr => by cases hr; exact hkept
  have hanswer : (stoppedProcess.answers [.account,.getOrder "BTCUSDT" "s1"])[1]?=
      some (.order (some ⟨.filled,some "48000","3"⟩)) := by decide +kernel
  exact h.trans hanswer

/-- A stop that is placed and canceled. -/
def endedStop (id : String) : List (Option PaperRequest) :=
  [some (.call (.placeStop "BTCUSDT" .long "48000" id)),some (.call (.cancelOrder "BTCUSDT" id))]

/-- What stops leave behind that were placed and canceled one after the other. -/
theorem run_endedStops (equity : ℚ) {ids : List String} (hids : ids ≠ []) {p : PaperProcess}
    (ho : p.sim.orders=[]) : let q := Machine.run (live equity) p (ids.flatMap endedStop)
    q.sim.orders=[] ∧ q.sim.closed=ids.foldl (fun c id => c.set id canceledView) p.sim.closed ∧
      q.sim.ended=ids.foldl endedLast p.sim.ended ∧ q.blob=some q.sim.snapshot := by
  induction ids generalizing p with
  | nil => exact absurd rfl hids
  | cons id ids ih =>
    have hrun : Machine.run (live equity) p ((id::ids).flatMap endedStop)=
        Machine.run (live equity) (Machine.run (live equity) p (endedStop id)) (ids.flatMap endedStop) := by
      rw [List.flatMap_cons]
      exact List.foldl_append
    have hone : ∃ q, Machine.run (live equity) p (endedStop id)=q ∧ q.sim.orders=[] ∧
        q.sim.closed=p.sim.closed.set id canceledView ∧ q.sim.ended=endedLast p.sim.ended id ∧
        q.blob=some q.sim.snapshot := by
      refine ⟨_,rfl,?_⟩
      simp [Machine.run,endedStop,live,answer,perform,save,placeStop,protective,record,ho,cancelOrder,
        finish]
    obtain ⟨q,hq,hqo,hqc,hqe,hqb⟩ := hone
    rw [hrun,hq,List.foldl_cons,List.foldl_cons]
    cases ids with
    | nil => exact ⟨hqo,hqc,hqe,hqb⟩
    | cons j js =>
      have h := @ih (List.cons_ne_nil j js) q hqo
      rwa [hqc,hqe] at h

/-- An id that ended first and ends again after 500 others is the newest of all, and a restart has
forgotten it. -/
theorem endedAgain_forgotten (equity : ℚ) {id : String} {ids : List String} (hids : (id::ids).Nodup)
    (hlen : ids.length=closedKeep) : ∃ p, Machine.run (live equity) (start equity none)
      ((id::ids ++ [id]).flatMap endedStop)=p ∧ id ∉ p.sim.forgotten ∧
        p.sim.getOrder id=some canceledView ∧ (start equity p.blob).sim.getOrder id=none := by
  obtain ⟨hnew,hnodup⟩ := List.nodup_cons.mp hids
  obtain ⟨ho,hc,he,hb⟩ := @run_endedStops equity (id::ids ++ [id]) (List.cons_ne_nil _ _)
    (start equity none) rfl
  refine ⟨_,rfl,?_⟩
  set p := Machine.run (live equity) (start equity none) ((id::ids ++ [id]).flatMap endedStop)
  have hfirst := keys_foldl_set canceledView (Keyed.Table.empty : Keyed.Map String OrderStatusView) hids
  rw [List.foldl_append,List.foldl_cons,List.foldl_nil] at hc he
  have hkeys : p.sim.closed.keys=id::ids := by
    rw [hc]
    exact (Keyed.Map.keys_set_of_mem (hfirst ▸ List.mem_cons_self) _).trans hfirst
  have hended : p.sim.ended=ids ++ [id] := by
    rw [he]
    refine (congrArg (endedLast · id) (foldl_endedLast [] hids)).trans ?_
    rw [List.nil_append,endedLast,List.erase_cons_head]
  have hrows : p.sim.closed.rows.length=closedKeep+1 := by
    have h := congrArg List.length hkeys
    rw [Keyed.Map.keys,List.length_map] at h
    rw [h,List.length_cons,hlen]
  refine ⟨?_,?_,?_⟩
  · rw [forgotten,hended,List.length_append,hlen,List.length_singleton,Nat.add_sub_cancel_left,
      List.take_append_of_le_length (by rw [hlen]; decide)]
    exact fun hmem => hnew (List.mem_of_mem_take hmem)
  · rw [getOrder_of_none (by rw [ordersUnder,ho,List.filter_nil]),hc,Keyed.Map.get_set,if_pos rfl]
  · have hversion : ¬p.sim.snapshot.version ≠ paperSnapshotVersion := fun h => h rfl
    have hkept : Keyed.Map.keys (Keyed.Table.ofRows p.sim.snapshot.closed)=ids := by
      rw [Keyed.Map.keys,Keyed.Table.rows_ofRows,snapshot_closed,hrows,Nat.add_sub_cancel_left,
        List.map_drop]
      · exact congrArg (List.drop 1) hkeys
      · rw [snapshot_closed]
        exact ((List.drop_sublist _ _).map Prod.fst).nodup p.sim.closed.nodup
    simp only [hb,start,restore,if_neg hversion]
    rw [getOrder_of_none (by rw [ordersUnder]; exact congrArg (List.filter _) ho)]
    exact Keyed.Map.get_eq_none_iff.mpr (hkept ▸ hnew)

/-- The serial number in unary. -/
def serial (n : ℕ) : String := String.ofList (List.replicate n 's')

theorem serial_injective : Function.Injective serial := by
  intro m n h
  have hl := congrArg (fun s : String => s.toList.length) h
  simpa [serial] using hl

def serials : List String := (List.range closedKeep).map fun n => serial (n+1)

/-- A stop ends, 500 others end, and one under the first id ends again. -/
def endedAgain : List (Option PaperRequest) := (serial 0::serials ++ [serial 0]).flatMap endedStop

/-- The newest terminal order of all is lost by a restart. -/
theorem endedAgain_lost : ¬∀ (equity : ℚ) (past : List (Option PaperRequest)) (rs : List PaperRequest)
    (n : ℕ), let p := Machine.run (live equity) (start equity none) past
    (∀ r ∈ rs[n]?, Spares (· ∈ p.sim.forgotten) r) →
      ((start equity p.blob).answers rs)[n]?=(p.answers rs)[n]? := by
  intro hall
  have hids : (serial 0::serials).Nodup := by
    refine List.nodup_cons.mpr ⟨fun hmem => ?_,List.nodup_range.map fun m n h => ?_⟩
    · obtain ⟨n,-,hn⟩ := List.mem_map.mp hmem
      exact Nat.succ_ne_zero n (serial_injective hn)
    · exact Nat.succ_injective (serial_injective h)
  have hlen : serials.length=closedKeep := by rw [serials,List.length_map,List.length_range]
  obtain ⟨p,hp,hnot,horder,hlost⟩ := endedAgain_forgotten 10000 hids hlen
  have h := hall 10000 endedAgain [.getOrder "BTCUSDT" (serial 0)] 0
  rw [endedAgain,hp] at h
  have hsame := h fun r hr => by cases hr; exact hnot
  simp only [answers,answer,horder,hlost,List.getElem?_cons_zero] at hsame
  cases hsame

end PaperProcess
end TradeGate
