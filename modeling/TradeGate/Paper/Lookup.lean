import TradeGate.Paper.Conservation

/-! Finding an order again on the paper account.  An order that was accepted rests, was withdrawn, or
has traded; `getOrder` tells which.  Only an entry that trades in the moment it is placed leaves no
record behind. -/

/-- The text tells the number, or is its shortest notation. -/
def Js.Tells (s : String) (q : ℚ) : Prop := Js.number s=some q ∨ s=Js.text q

instance (s : String) (q : ℚ) : Decidable (Js.Tells s q) := inferInstanceAs (Decidable (_ ∨ _))

namespace TradeGate

/-- The client order id a call brings. -/
def PaperCall.orderId : PaperCall → Option String
  | .placeEntry req _ => some req.clientOrderId
  | .placeStop _ _ _ id => some id
  | .placeTakeProfit _ _ _ id => some id
  | .closePosition _ id => some id
  | .reducePosition _ _ id _ => some id
  | _ => none

namespace PaperBackend

/-- The call places an order under the id, and the receipt says filled or submitted. -/
def Accepts (b : PaperBackend) (cid : String) : PaperCall → Prop
  | .placeEntry req _ => req.clientOrderId=cid ∧ (b.placeEntry req).1.outcome ≠ .failed
  | .placeStop _ _ _ id => id=cid
  | .placeTakeProfit _ _ _ id => id=cid
  | _ => False

instance (b : PaperBackend) (cid : String) : ∀ c, Decidable (b.Accepts cid c)
  | .placeEntry _ _ => inferInstanceAs (Decidable (_ ∧ _))
  | .placeStop _ _ _ _ | .placeTakeProfit _ _ _ _ => inferInstanceAs (Decidable (_=_))
  | .setMark _ _ _ | .setLeverage _ _ | .closePosition _ _ | .reducePosition _ _ _ _ | .cancelAll _
  | .cancelOrder _ _ | .tick _ _ _ => .isFalse id

/-- The trades made under an order id. -/
def tradesUnder (b : PaperBackend) (cid : String) : List PaperTrade :=
  (tradesOf b.tape).filter fun t => t.order=cid

/-- The open orders under an id. -/
def ordersUnder (b : PaperBackend) (cid : String) : List PaperOrder :=
  b.orders.filter fun o => o.clientOrderId=cid

/-- The query finds the order: filled with the units that it traded, new while it rests, and canceled
when it neither rests nor has traded. -/
def Found (b : PaperBackend) (cid : String) : Prop := ∃ v ∈ b.getOrder cid,
  if b.tradesUnder cid ≠ [] then
    v.status=.filled ∧ Js.Tells v.executedQty ((b.tradesUnder cid).map PaperTrade.qty).sum
  else if b.ordersUnder cid ≠ [] then v.status=.new
  else v.status=.canceled

instance (b : PaperBackend) (cid : String) : Decidable (b.Found cid) :=
  inferInstanceAs (Decidable (∃ v ∈ b.getOrder cid, _))

/-- The order rests from the call on: it does not trade in the moment it is placed. -/
def Rests (b : PaperBackend) : PaperCall → Prop
  | .placeEntry req _ => ¬b.fillsAtOnce req
  | _ => True

/-- No smaller position of the other side is in the order's way. -/
def HasRoom (b : PaperBackend) (o : PaperOrder) : Prop :=
  ∀ p ∈ b.position o.symbol, p.side=o.positionSide ∨ Js.value o.qty ≤ p.qty

/-- When the mark has reached the order of the id, it has room in the account that the fills before
it leave. -/
def TurnHasRoom (cid symbol : String) : List PaperOrder → PaperBackend → Prop
  | [], _ => True
  | o::os, b => (o.clientOrderId=cid → o.reached (b.mark symbol) → b.HasRoom o) ∧
    TurnHasRoom cid symbol os (fillResting symbol [o] b).2

/-- The call does not fill the order of the id against a smaller position of the other side. -/
def Roomy (cid : String) (b : PaperBackend) : PaperCall → Prop
  | .tick symbol mark _ =>
    TurnHasRoom cid symbol ((b.setMark symbol mark).resting symbol) (b.setMark symbol mark)
  | _ => True

instance (b : PaperBackend) : ∀ c, Decidable (b.Rests c)
  | .placeEntry _ _ => inferInstanceAs (Decidable (¬_))
  | .setMark _ _ _ | .setLeverage _ _ | .placeStop _ _ _ _ | .placeTakeProfit _ _ _ _
  | .closePosition _ _ | .reducePosition _ _ _ _ | .cancelAll _ | .cancelOrder _ _ | .tick _ _ _ =>
    .isTrue trivial

instance (b : PaperBackend) (o : PaperOrder) : Decidable (b.HasRoom o) :=
  inferInstanceAs (Decidable (∀ p ∈ b.position o.symbol, _))

def decideTurnHasRoom (cid symbol : String) : (os : List PaperOrder) → (b : PaperBackend) →
    Decidable (TurnHasRoom cid symbol os b)
  | [], _ => .isTrue trivial
  | o::os, b => @instDecidableAnd _ _ (inferInstanceAs (Decidable (_ → _ → b.HasRoom o)))
    (decideTurnHasRoom cid symbol os (fillResting symbol [o] b).2)

instance (cid : String) (b : PaperBackend) : ∀ c, Decidable (Roomy cid b c)
  | .tick symbol mark _ => decideTurnHasRoom cid symbol ((b.setMark symbol mark).resting symbol) _
  | .setMark _ _ _ | .setLeverage _ _ | .placeEntry _ _ | .placeStop _ _ _ _ | .placeTakeProfit _ _ _ _
  | .closePosition _ _ | .reducePosition _ _ _ _ | .cancelAll _ | .cancelOrder _ _ => .isTrue trivial

/-- Where the order under an id stands: not placed yet, or placed as an entry of a quantity or as a
protective order. -/
inductive Stands (cid : String) (b : PaperBackend) : Option (Bool × String) → Prop
  | unplaced (ho : b.ordersUnder cid=[]) (hu : b.tradesUnder cid=[]) : Stands cid b none
  | resting {entry : Bool} {qty : String} (o : PaperOrder) (ho : b.ordersUnder cid=[o]) (hq : o.qty=qty)
      (ht : o.type=.limit → entry=true ∧ o.reduceOnly=false) (hu : b.tradesUnder cid=[]) :
      Stands cid b (some (entry,qty))
  | withdrawn {entry : Bool} {qty : String} (ho : b.ordersUnder cid=[]) (hu : b.tradesUnder cid=[])
      (hc : b.closed.get cid=some canceledView) : Stands cid b (some (entry,qty))
  | executed {entry : Bool} {qty : String} (t : PaperTrade) (v : OrderStatusView)
      (ho : b.ordersUnder cid=[]) (hu : b.tradesUnder cid=[t]) (hc : b.closed.get cid=some v)
      (hs : v.status=.filled)
      (hq : v.executedQty=Js.text t.qty ∨ entry=true ∧ v.executedQty=qty ∧ t.qty=Js.value qty) :
      Stands cid b (some (entry,qty))

variable {entry : Bool} {cid qty : String} {b b' : PaperBackend} {k : Option (Bool × String)}

theorem mem_ordersUnder {o : PaperOrder} :
    o ∈ b.ordersUnder cid ↔ o ∈ b.orders ∧ o.clientOrderId=cid := by
  rw [ordersUnder,List.mem_filter,decide_eq_true_eq]

theorem getOrder_of_none (h : b.ordersUnder cid=[]) : b.getOrder cid=b.closed.get cid := by
  refine if_neg ?_
  rintro ⟨o,ho,hid⟩
  exact List.ne_nil_of_mem (mem_ordersUnder.mpr ⟨ho,hid⟩) h

/-- A query finds the order wherever it stands. -/
theorem Stands.found (h : Stands cid b (some (entry,qty))) (hunits : entry=true → Js.positive qty) :
    b.Found cid := by
  cases h with
  | resting o ho hq ht hu =>
    obtain ⟨hin,hid⟩ := mem_ordersUnder.mp (ho ▸ List.mem_singleton_self o)
    refine ⟨⟨.new,none,"0"⟩,if_pos ⟨o,hin,hid⟩,?_⟩
    rw [if_neg (not_not.mpr hu),if_pos (by rw [ho]; exact List.cons_ne_nil _ _)]
  | withdrawn ho hu hc =>
    refine ⟨canceledView,(getOrder_of_none ho).trans hc,?_⟩
    rw [if_neg (not_not.mpr hu),if_neg (not_not.mpr ho)]
    rfl
  | executed t v ho hu hc hs hq =>
    refine ⟨v,(getOrder_of_none ho).trans hc,?_⟩
    rw [hu,if_pos (List.cons_ne_nil _ _)]
    refine ⟨hs,?_⟩
    simp only [List.map_cons,List.map_nil,List.sum_cons,List.sum_nil,add_zero]
    rcases hq with hq|⟨hentry,hq,ht⟩
    · exact .inr hq
    · rw [hq,ht]
      exact .inl (Js.number_of_positive (hunits hentry))

theorem Stands.congr (h : Stands cid b k) (ho : b'.ordersUnder cid=b.ordersUnder cid)
    (hu : b'.tradesUnder cid=b.tradesUnder cid) (hc : b'.closed.get cid=b.closed.get cid) :
    Stands cid b' k := by
  cases h with
  | unplaced ho₁ hu₁ => exact .unplaced (ho.trans ho₁) (hu.trans hu₁)
  | resting o ho₁ hq ht hu₁ => exact .resting o (ho.trans ho₁) hq ht (hu.trans hu₁)
  | withdrawn ho₁ hu₁ hc₁ => exact .withdrawn (ho.trans ho₁) (hu.trans hu₁) (hc.trans hc₁)
  | executed t v ho₁ hu₁ hc₁ hs hq =>
    exact .executed t v (ho.trans ho₁) (hu.trans hu₁) (hc.trans hc₁) hs hq

theorem get_finish (b : PaperBackend) (status : OrderStatusView) (os : List PaperOrder) (cid : String) :
    (b.finish status os).closed.get cid=
      if ∃ o ∈ os, o.clientOrderId=cid then some status else b.closed.get cid := by
  have h : ∀ c : Keyed.Map String OrderStatusView,
      (os.foldl (fun c o => c.set o.clientOrderId status) c).get cid=
        if ∃ o ∈ os, o.clientOrderId=cid then some status else c.get cid := by
    induction os with
    | nil => simp
    | cons o os ih =>
      intro c
      rw [List.foldl_cons,ih,Keyed.Map.get_set]
      by_cases hin : ∃ x ∈ os, x.clientOrderId=cid
      · rw [if_pos hin,if_pos (hin.imp fun x hx => ⟨List.mem_cons_of_mem o hx.1,hx.2⟩)]
      · simp only [List.mem_cons,exists_eq_or_imp,if_neg hin]
        by_cases ho : o.clientOrderId=cid
        · rw [if_pos ho,if_pos (.inl ho)]
        · rw [if_neg ho,if_neg (not_or.mpr ⟨ho,hin⟩)]
  exact h b.closed

/-- The open orders of a kind are withdrawn. -/
theorem Stands.withdraw {P : PaperOrder → Prop} [DecidablePred P] (h : Stands cid b k)
    (ho : b'.orders=b.orders.filter fun o => ¬P o) (hu : b'.tradesUnder cid=b.tradesUnder cid)
    (hc : b'.closed=(b.finish canceledView (b.orders.filter fun o => P o)).closed) :
    Stands cid b' k := by
  have hunder : b'.ordersUnder cid=(b.ordersUnder cid).filter fun o => ¬P o := by
    simp only [ordersUnder,ho,List.filter_filter,Bool.and_comm]
  have hclosed := get_finish b canceledView (b.orders.filter fun o => P o) cid
  rw [← hc] at hclosed
  by_cases hgone : ∃ o ∈ b.orders.filter fun o => P o, o.clientOrderId=cid
  · obtain ⟨o,hmem,hid⟩ := hgone
    obtain ⟨hin,hP⟩ := List.mem_filter.mp hmem
    have hmemu : o ∈ b.ordersUnder cid := mem_ordersUnder.mpr ⟨hin,hid⟩
    rw [if_pos ⟨o,hmem,hid⟩] at hclosed
    cases h with
    | resting o' ho' hq ht hu' =>
      obtain rfl : o=o' := List.mem_singleton.mp (ho' ▸ hmemu)
      refine .withdrawn ?_ (hu.trans hu') hclosed
      rw [hunder,ho']
      simpa using hP
    | unplaced ho' => rw [ho'] at hmemu; cases hmemu
    | withdrawn ho' => rw [ho'] at hmemu; cases hmemu
    | executed t v ho' => rw [ho'] at hmemu; cases hmemu
  · rw [if_neg hgone] at hclosed
    refine h.congr ?_ hu hclosed
    rw [hunder]
    refine List.filter_eq_self.mpr fun o hmem => ?_
    obtain ⟨hin,hid⟩ := mem_ordersUnder.mp hmem
    simpa using fun hP => hgone ⟨o,List.mem_filter.mpr ⟨hin,by simpa using hP⟩,hid⟩

theorem tradesUnder_traded (b : PaperBackend) (t : PaperTrade) (cid : String) :
    (b.record (.traded t)).tradesUnder cid=
      b.tradesUnder cid ++ if t.order=cid then [t] else [] := by
  unfold tradesUnder tradesOf record
  rw [List.filterMap_append,List.filter_append]
  congr 1
  by_cases h : t.order=cid <;> simp [h]

/-- A deal that is no trade. -/
theorem tradesUnder_record {d : PaperDeal} (hd : ∀ t, d ≠ .traded t) (b : PaperBackend) (cid : String) :
    (b.record d).tradesUnder cid=b.tradesUnder cid := by
  unfold tradesUnder tradesOf record
  rw [List.filterMap_append]
  cases d with
  | traded t => exact absurd rfl (hd t)
  | _ => simp

/-- A close under another order leaves the order, or withdraws it with the position it protects. -/
theorem closeAt_stands (h : Stands cid b k) {order : String} (hne : order ≠ cid) (asEntry : Bool)
    (symbol : String) (price : ℚ) (units : Option ℚ) :
    Stands cid (b.closeAt order asEntry symbol price units).2 k := by
  unfold closeAt
  split
  · exact h
  next p hp =>
    dsimp only
    have hu := tradesUnder_traded { b with wallet := b.wallet+(p.side.gain p.entry price*
      min p.qty (units.getD p.qty)-price*min p.qty (units.getD p.qty)*feeRate) }
      ⟨order,asEntry,symbol,p.side.opposite,min p.qty (units.getD p.qty),price⟩ cid
    rw [if_neg hne,List.append_nil] at hu
    split
    · refine h.withdraw (P := fun o => o.symbol=symbol ∧ o.reduceOnly) rfl ?_ rfl
      exact (tradesUnder_record (by nofun) _ _).trans hu
    · exact h.congr rfl hu rfl

/-- A fill of another entry. -/
theorem fill_stands (h : Stands cid b k) {order : String} (hne : order ≠ cid) (symbol : String)
    (side : Direction) (units price : ℚ) (leverage : ℕ) :
    Stands cid (b.fill order symbol side units price leverage) k := by
  cases hp : b.position symbol with
  | none =>
    rw [fill_of_none order price leverage hp]
    refine h.congr rfl ?_ rfl
    refine (tradesUnder_traded (b.record (.opened symbol side)) _ cid).trans ?_
    rw [if_neg hne,List.append_nil,tradesUnder_record (by nofun)]
  | some p =>
    by_cases hs : p.side=side
    · rw [fill_of_side order price leverage hp hs]
      refine h.congr rfl ((tradesUnder_traded b _ cid).trans ?_) rfl
      rw [if_neg hne,List.append_nil]
    · simp only [fill,hp,if_neg hs]
      exact closeAt_stands (b := { b with wallet := b.wallet-price*units*feeRate })
        (h.congr rfl rfl rfl) hne true symbol price (some units)

/-- A close keeps the orders under an id that are not protective. -/
theorem closeAt_ordersUnder (order : String) (asEntry : Bool) (symbol : String) (price : ℚ)
    (units : Option ℚ) (h : ∀ o ∈ b.ordersUnder cid, o.reduceOnly=false) :
    (b.closeAt order asEntry symbol price units).2.ordersUnder cid=b.ordersUnder cid := by
  unfold closeAt
  split
  · rfl
  · dsimp only
    split
    · change (b.orders.filter _).filter _=_
      rw [List.filter_filter,ordersUnder]
      refine List.filter_congr fun o ho => ?_
      by_cases hid : o.clientOrderId=cid
      · simp [hid,h o (mem_ordersUnder.mpr ⟨ho,hid⟩)]
      · simp [hid]
    · rfl

/-- The fill of an entry is one trade under its id, and in whole when it has room. -/
theorem fill_traded (b : PaperBackend) (cid symbol : String) (side : Direction) (units price : ℚ)
    (leverage : ℕ) : ∃ t, (b.fill cid symbol side units price leverage).tradesUnder cid=
      b.tradesUnder cid ++ [t] ∧ ((∀ p ∈ b.position symbol, p.side=side ∨ units ≤ p.qty) → t.qty=units) := by
  cases hp : b.position symbol with
  | none =>
    have hu := tradesUnder_traded (b.record (.opened symbol side)) ⟨cid,true,symbol,side,units,price⟩ cid
    have ho : (b.record (.opened symbol side)).tradesUnder cid=b.tradesUnder cid :=
      tradesUnder_record (by rintro _ ⟨⟩) b cid
    rw [if_pos rfl,ho] at hu
    rw [fill_of_none cid price leverage hp]
    exact ⟨_,hu,fun _ => rfl⟩
  | some p =>
    by_cases hs : p.side=side
    · have hu := tradesUnder_traded b ⟨cid,true,symbol,side,units,price⟩ cid
      rw [if_pos rfl] at hu
      rw [fill_of_side cid price leverage hp hs]
      exact ⟨_,hu,fun _ => rfl⟩
    · have hu := fun w => tradesUnder_traded { b with wallet := w }
        ⟨cid,true,symbol,p.side.opposite,min p.qty units,price⟩ cid
      simp only [if_true] at hu
      have hp' : ({ b with wallet := b.wallet-price*units*feeRate } : PaperBackend).position symbol=
        some p := hp
      have hwhole : (∀ q ∈ some p, q.side=side ∨ units ≤ q.qty) → min p.qty units=units := fun h =>
        min_eq_right ((h p rfl).resolve_left hs)
      simp only [fill,hp,if_neg hs,closeAt,hp',Option.getD_some]
      split
      · exact ⟨_,(tradesUnder_record (by rintro _ ⟨⟩) _ _).trans (hu _),hwhole⟩
      · exact ⟨_,hu _,hwhole⟩

theorem fill_ordersUnder (order symbol : String) (side : Direction) (units price : ℚ) (leverage : ℕ)
    (h : ∀ o ∈ b.ordersUnder cid, o.reduceOnly=false) :
    (b.fill order symbol side units price leverage).ordersUnder cid=b.ordersUnder cid := by
  cases hp : b.position symbol with
  | none => rw [fill_of_none order price leverage hp]; rfl
  | some p =>
    by_cases hs : p.side=side
    · rw [fill_of_side order price leverage hp hs]
      rfl
    · simp only [fill,hp,if_neg hs]
      exact closeAt_ordersUnder (b := { b with wallet := b.wallet-price*units*feeRate }) order true
        symbol price (some units) h

theorem filter_erase_of_not {α : Type} [BEq α] [LawfulBEq α] {p : α → Bool} {a : α} (h : p a=false) (l : List α) :
    (l.erase a).filter p=l.filter p := by
  induction l with
  | nil => rfl
  | cons x l ih =>
    by_cases hx : x=a
    · subst hx
      rw [List.erase_cons_head,List.filter_cons_of_neg (by simp [h])]
    · rw [List.erase_cons_tail (by simpa using hx),List.filter_cons,List.filter_cons,ih]

/-- The only order under an id, erased. -/
theorem ordersUnder_erase {o : PaperOrder} (ho : b.ordersUnder cid=[o]) (hb : b'.orders=b.orders.erase o) :
    b'.ordersUnder cid=[] := by
  refine List.filter_eq_nil_iff.mpr fun x hx => ?_
  rw [hb] at hx
  intro hid
  have hmem : x ∈ b.ordersUnder cid := List.mem_filter.mpr ⟨List.mem_of_mem_erase hx,hid⟩
  obtain rfl : x=o := List.mem_singleton.mp (ho ▸ hmem)
  have hcount : (b.ordersUnder cid).count x=b.orders.count x := List.count_filter hid
  rw [ho,List.count_singleton_self] at hcount
  have hpos := List.count_pos_iff.mpr hx
  rw [List.count_erase_self] at hpos
  omega

/-- An order on the book is where it rests. -/
theorem Stands.resting_of_mem (h : Stands cid b k) {o : PaperOrder} (ho : o ∈ b.orders)
    (hid : o.clientOrderId=cid) : b.ordersUnder cid=[o] ∧ b.tradesUnder cid=[] ∧ ∃ entry,
      k=some (entry,o.qty) ∧ (o.type=.limit → entry=true ∧ o.reduceOnly=false) := by
  have hmem := mem_ordersUnder.mpr ⟨ho,hid⟩
  cases h with
  | unplaced ho => rw [ho] at hmem; cases hmem
  | withdrawn ho => rw [ho] at hmem; cases hmem
  | executed t v ho => rw [ho] at hmem; cases hmem
  | resting o' ho hq ht hu =>
    obtain rfl : o=o' := List.mem_singleton.mp (ho ▸ hmem)
    exact ⟨ho,hu,_,hq ▸ rfl,ht⟩

/-- The order's own turn among the resting entries. -/
theorem Stands.fillsResting (h : Stands cid b k) {o : PaperOrder} (ho : o ∈ b.orders)
    (hid : o.clientOrderId=cid) (hlim : o.type=.limit) (hroom : b.HasRoom o) (price : ℚ)
    (leverage : ℕ) : Stands cid
      (finish { b.fill o.clientOrderId o.symbol o.positionSide (Js.value o.qty) price leverage with
        orders := (b.fill o.clientOrderId o.symbol o.positionSide (Js.value o.qty) price
          leverage).orders.erase o }
        ⟨.filled,some (Js.text price),o.qty⟩ [o]) k := by
  obtain ⟨hone,hu,entry,rfl,ht⟩ := h.resting_of_mem ho hid
  obtain ⟨hentry,hred⟩ := ht hlim
  subst hid
  obtain ⟨t,htr,hunits⟩ := fill_traded b o.clientOrderId o.symbol o.positionSide (Js.value o.qty) price
    leverage
  rw [hu,List.nil_append] at htr
  have hunder := fill_ordersUnder o.clientOrderId o.symbol o.positionSide (Js.value o.qty) price leverage
    fun x hx => by rw [hone] at hx; rw [List.mem_singleton.mp hx]; exact hred
  refine .executed t ⟨.filled,some (Js.text price),o.qty⟩ (ordersUnder_erase (hunder.trans hone) rfl) htr
    ?_ rfl (.inr ⟨hentry,rfl,hunits hroom⟩)
  rw [get_finish,if_pos ⟨o,List.mem_singleton_self o,rfl⟩]

/-- The turn of another entry. -/
theorem Stands.fillsOther (h : Stands cid b k) {o : PaperOrder} (hid : o.clientOrderId ≠ cid)
    (symbol : String) (units price : ℚ) (leverage : ℕ) : Stands cid
      (finish { b.fill o.clientOrderId symbol o.positionSide units price leverage with
        orders := (b.fill o.clientOrderId symbol o.positionSide units price leverage).orders.erase o }
        ⟨.filled,some (Js.text price),o.qty⟩ [o]) k := by
  refine (fill_stands h hid symbol o.positionSide units price leverage).congr ?_ rfl ?_
  · exact filter_erase_of_not (by simpa using hid) _
  · rw [get_finish,if_neg (by simpa using hid)]

theorem fillResting_stands {symbol : String} {os : List PaperOrder} (h : Stands cid b k)
    (hin : ∀ o ∈ os, o.clientOrderId=cid → o ∈ b.orders) (hlim : ∀ o ∈ os, o.symbol=symbol ∧ o.type=.limit)
    (hone : (os.filter fun o => o.clientOrderId=cid).length ≤ 1) (hroom : TurnHasRoom cid symbol os b) :
    Stands cid (fillResting symbol os b).2 k := by
  induction os generalizing b with
  | nil => exact h
  | cons o os ih =>
    obtain ⟨hino,hinos⟩ := List.forall_mem_cons.mp hin
    obtain ⟨⟨rfl,hlimo⟩,hlimos⟩ := List.forall_mem_cons.mp hlim
    obtain ⟨hroomo,hrooms⟩ := hroom
    simp only [fillResting] at hrooms
    have hrest : (os.filter fun o => o.clientOrderId=cid).length ≤ 1 :=
      le_trans (List.Sublist.filter _ (List.sublist_cons_self o os)).length_le hone
    unfold fillResting
    split
    next hreached =>
      rw [if_pos hreached] at hrooms
      by_cases hid : o.clientOrderId=cid
      · -- no other order of its id follows
        have hnone : ∀ x ∈ os, x.clientOrderId ≠ cid := by
          simp only [List.filter_cons,hid,decide_true,if_true,List.length_cons] at hone
          have hnil := List.length_eq_zero_iff.mp (Nat.le_zero.mp (Nat.le_of_add_le_add_right hone))
          intro x hx hxid
          exact List.ne_nil_of_mem (List.mem_filter.mpr ⟨hx,by simpa using hxid⟩) hnil
        exact ih (h.fillsResting (hino hid) hid hlimo (hroomo hid hreached) _ _)
          (fun x hx hxid => absurd hxid (hnone x hx)) hlimos hrest hrooms
      · refine ih (h.fillsOther hid o.symbol _ _ _) (fun x hx hxid => ?_) hlimos hrest hrooms
        have hx' := hinos x hx hxid
        obtain ⟨hone,-,entry,-,ht⟩ := h.resting_of_mem hx' hxid
        have hunder := fill_ordersUnder (b := b) o.clientOrderId o.symbol o.positionSide (Js.value o.qty)
          (Js.value (o.price.getD "0")) (b.leverageOf o.symbol) fun y hy => by
            rw [hone] at hy
            rw [List.mem_singleton.mp hy]
            exact (ht (hlimos x hx).2).2
        have hne : x ≠ o := by
          rintro rfl
          exact hid hxid
        refine (List.mem_erase_of_ne hne).mpr ?_
        exact (mem_ordersUnder.mp (hunder ▸ mem_ordersUnder.mpr ⟨hx',hxid⟩)).1
    next hreached =>
      rw [if_neg hreached] at hrooms
      exact ih h hinos hlimos hrest hrooms

theorem ordersUnder_length (h : Stands cid b k) : (b.ordersUnder cid).length ≤ 1 := by
  cases h with
  | unplaced ho => simp [ho]
  | resting o ho => simp [ho]
  | withdrawn ho => simp [ho]
  | executed t v ho => simp [ho]

/-- A protective order that goes off closes the position in one trade under its id. -/
theorem trigger_own (h : Stands cid b k) {p : PaperPosition} {o : PaperOrder} {symbol : String}
    (hp : b.position symbol=some p) (ho : o ∈ b.orders) (hid : o.clientOrderId=cid)
    (hsym : o.symbol=symbol) (hred : o.reduceOnly=true) (trig : ℚ) :
    Stands cid (((b.record (.triggered o (b.mark symbol) p.side)).closeAt o.clientOrderId false symbol
      trig none).2.amend ⟨.filled,some (Js.text trig),Js.text p.qty⟩ o) k := by
  obtain ⟨hone,hu,entry,rfl,-⟩ := h.resting_of_mem ho hid
  have hp' : (b.record (.triggered o (b.mark symbol) p.side)).position symbol=some p := hp
  have hall : p.qty-dust ≤ min p.qty p.qty := by
    rw [min_self]
    exact sub_le_self _ (by decide +kernel)
  simp only [closeAt,hp',Option.getD_none,if_pos hall]
  subst hid
  refine .executed ⟨o.clientOrderId,false,symbol,p.side.opposite,min p.qty p.qty,trig⟩
    ⟨.filled,some (Js.text trig),Js.text p.qty⟩ ?_ ?_ ?_ rfl (.inl (by rw [min_self]))
  · change (b.orders.filter _).filter _=[]
    rw [List.filter_filter]
    refine List.filter_eq_nil_iff.mpr fun x hx => ?_
    by_cases hxid : x.clientOrderId=o.clientOrderId
    · obtain rfl : x=o := List.mem_singleton.mp (hone ▸ mem_ordersUnder.mpr ⟨hx,hxid⟩)
      simp [hsym,hred]
    · simp [hxid]
  · refine (tradesUnder_record (by rintro _ ⟨⟩) _ _).trans ((tradesUnder_traded { b with
      wallet := b.wallet+(p.side.gain p.entry trig*min p.qty p.qty-trig*min p.qty p.qty*feeRate)
      tape := (b.record (.triggered o (b.mark symbol) p.side)).tape } _ _).trans ?_)
    rw [if_pos rfl]
    change (b.record (.triggered o (b.mark symbol) p.side)).tradesUnder _ ++ _=_
    rw [tradesUnder_record (by rintro _ ⟨⟩),hu,List.nil_append]
  · exact (Keyed.Map.get_set ..).trans (if_pos rfl)

theorem trigger_stands (h : Stands cid b k) (symbol : String) : Stands cid (b.trigger symbol).2 k := by
  unfold trigger
  split
  · exact h
  next p hp =>
    split
    · exact h
    next o ho =>
      have hin := List.mem_of_find?_eq_some ho
      have hfound := List.find?_some ho
      simp only [decide_eq_true_eq] at hfound
      obtain ⟨hsym,hred,-⟩ := hfound
      by_cases hid : o.clientOrderId=cid
      · exact trigger_own h hp hin hid hsym hred _
      · have hrec : Stands cid (b.record (.triggered o (b.mark symbol) p.side)) k :=
          h.congr rfl (tradesUnder_record (by nofun) b cid) rfl
        refine (closeAt_stands hrec hid false symbol _ none).congr rfl rfl ?_
        exact (Keyed.Map.get_set ..).trans (if_neg hid)

theorem tick_stands (h : Stands cid b k) {symbol mark : String}
    (hroom : TurnHasRoom cid symbol ((b.setMark symbol mark).resting symbol) (b.setMark symbol mark)) :
    Stands cid (b.tick symbol mark).2 k := by
  have hm : Stands cid (b.setMark symbol mark) k := h.congr rfl rfl rfl
  refine trigger_stands (fillResting_stands hm (fun o ho _ => List.mem_of_mem_filter ho) (fun o ho => ?_)
    ?_ hroom) symbol
  · simpa only [decide_eq_true_eq] using (List.mem_filter.mp ho).2
  · exact le_trans (List.Sublist.filter _ List.filter_sublist).length_le (ordersUnder_length hm)

/-- A new order on the book. -/
theorem ordersUnder_append {o : PaperOrder} (hb : b'.orders=b.orders ++ [o]) :
    b'.ordersUnder cid=b.ordersUnder cid ++ if o.clientOrderId=cid then [o] else [] := by
  rw [ordersUnder,hb,List.filter_append]
  congr 1
  by_cases h : o.clientOrderId=cid <;> simp [h]

/-- Another order joins the book. -/
theorem Stands.joined (h : Stands cid b k) {o : PaperOrder} (hid : o.clientOrderId ≠ cid)
    (hb : b'.orders=b.orders ++ [o]) (hu : b'.tradesUnder cid=b.tradesUnder cid)
    (hc : b'.closed=b.closed) : Stands cid b' k := by
  refine h.congr ?_ hu (by rw [hc])
  rw [ordersUnder_append hb,if_neg hid,List.append_nil]

/-- The order itself joins the book. -/
theorem Stands.joins (h : Stands cid b none) {o : PaperOrder} (hid : o.clientOrderId=cid)
    (ht : o.type=.limit → entry=true ∧ o.reduceOnly=false) (hb : b'.orders=b.orders ++ [o])
    (hu : b'.tradesUnder cid=b.tradesUnder cid) : Stands cid b' (some (entry,o.qty)) := by
  cases h with
  | unplaced ho hu' =>
    refine .resting o ?_ rfl ht (hu.trans hu')
    rw [ordersUnder_append hb,if_pos hid,ho,List.nil_append]

theorem tradesUnder_protective (b : PaperBackend) (symbol : String) (position : Direction)
    (price id : String) (type : PaperOrderType) (cid : String) :
    (b.protective symbol position price id type).2.tradesUnder cid=b.tradesUnder cid :=
  tradesUnder_record (by nofun) _ cid

theorem cancelOrder_stands (h : Stands cid b k) (symbol id : String) :
    Stands cid (b.cancelOrder symbol id).2 k := by
  unfold cancelOrder
  split
  · exact h
  next o ho =>
    have hin := List.mem_of_find?_eq_some ho
    by_cases hid : o.clientOrderId=cid
    · obtain ⟨hone,hu,entry,rfl,-⟩ := h.resting_of_mem hin hid
      refine .withdrawn (ordersUnder_erase hone rfl) hu ?_
      rw [get_finish,if_pos ⟨o,List.mem_singleton_self o,hid⟩]
    · refine h.congr (filter_erase_of_not (by simpa using hid) _) rfl ?_
      rw [get_finish,if_neg (by simpa using hid)]

/-- A call that brings another id, or none. -/
theorem perform_stands (h : Stands cid b k) {c : PaperCall} (hc : c.orderId ≠ some cid)
    (hroom : Roomy cid b c) : Stands cid (b.perform c) k := by
  have hne : ∀ id, c.orderId=some id → id ≠ cid := fun id hid he => hc (he ▸ hid)
  cases c with
  | setMark symbol mark _ => exact h.congr rfl rfl rfl
  | setLeverage symbol leverage => exact h.congr rfl rfl rfl
  | placeEntry req _ =>
    have hid := hne _ rfl
    change Stands cid (b.placeEntry req).2 k
    rcases placeEntry_cases b req with ⟨-,hf⟩|⟨-,-,hf⟩|⟨-,-,hf⟩
    · rw [hf]
      exact h
    · rw [hf]
      exact fill_stands h hid _ _ _ _ _
    · rw [hf]
      exact h.joined (o := ⟨req.symbol,req.direction,req.clientOrderId,.limit,
        req.direction.orderSide,req.qty,req.limitPrice,none,false⟩) hid rfl rfl rfl
  | placeStop symbol position stopPrice id =>
    exact h.joined (o := ⟨symbol,position,id,.stopMarket,position.opposite.orderSide,"0",none,
      some stopPrice,true⟩) (hne id rfl) rfl (tradesUnder_protective b _ _ _ _ _ cid) rfl
  | placeTakeProfit symbol position tp id =>
    exact h.joined (o := ⟨symbol,position,id,.takeProfitMarket,position.opposite.orderSide,"0",none,
      some tp,true⟩) (hne id rfl) rfl (tradesUnder_protective b _ _ _ _ _ cid) rfl
  | closePosition symbol id =>
    simp only [perform,closePosition]
    split
    · exact h
    · exact closeAt_stands h (hne id rfl) false symbol _ none
  | reducePosition symbol qty id _ =>
    simp only [perform,reducePosition]
    split
    · exact h
    · exact closeAt_stands h (hne id rfl) false symbol _ _
  | cancelAll symbol => exact h.withdraw (P := fun o => o.symbol=symbol) rfl rfl rfl
  | cancelOrder symbol id => exact cancelOrder_stands h symbol id
  | tick symbol mark _ => exact tick_stands h hroom

/-- A run that does not bring the id and gives its order room. -/
theorem run_stands (h : Stands cid b k) {calls : List PaperCall}
    (hids : ∀ c ∈ calls, c.orderId ≠ some cid) (hroom : Throughout (Roomy cid) b calls) :
    Stands cid (b.run calls) k := by
  induction calls generalizing b with
  | nil => exact h
  | cons c cs ih =>
    obtain ⟨hid,hids⟩ := List.forall_mem_cons.mp hids
    exact ih (perform_stands h hid hroom.1) hids hroom.2

theorem turnHasRoom_of_none {symbol : String} {os : List PaperOrder}
    (h : ∀ o ∈ os, o.clientOrderId ≠ cid) : TurnHasRoom cid symbol os b := by
  induction os generalizing b with
  | nil => trivial
  | cons o os ih =>
    obtain ⟨ho,hos⟩ := List.forall_mem_cons.mp h
    exact ⟨fun hid => absurd hid ho,ih hos⟩

/-- No order of the id is on the book that a call could fill. -/
theorem Stands.roomy (h : Stands cid b none) (c : PaperCall) : Roomy cid b c := by
  cases h with
  | unplaced ho hu =>
    cases c with
    | tick symbol mark quoted =>
      refine turnHasRoom_of_none fun o hmem hid => ?_
      exact List.ne_nil_of_mem (mem_ordersUnder.mpr ⟨List.mem_of_mem_filter hmem,hid⟩) ho
    | _ => trivial

/-- Until a call brings the id. -/
theorem run_unplaced (h : Stands cid b none) {calls : List PaperCall}
    (hids : ∀ c ∈ calls, c.orderId ≠ some cid) : Stands cid (b.run calls) none :=
  Machine.run_invariant (I := fun b => Stands cid b none) (P := fun _ c => c.orderId ≠ some cid)
    (fun _ c h hc => perform_stands h hc (h.roomy c)) h (Machine.throughout_of_forall hids)

/-- The entry quantity of a call; protective orders ask for none. -/
def askedBy : PaperCall → Bool × String
  | .placeEntry req _ => (true,req.qty)
  | _ => (false,"0")

/-- An accepted order that does not trade at once rests on the book. -/
theorem placed_stands (h : Stands cid b none) {c : PaperCall} (ha : b.Accepts cid c) (hr : b.Rests c) :
    Stands cid (b.perform c) (some (askedBy c)) := by
  cases c with
  | placeEntry req _ =>
    obtain ⟨hid,hacc⟩ := ha
    change Stands cid (b.placeEntry req).2 _
    rcases placeEntry_cases b req with ⟨hf,-⟩|⟨hf,-,-⟩|⟨-,-,hf⟩
    · exact absurd hf hacc
    · exact absurd hf hr
    · rw [hf]
      exact h.joins (o := ⟨req.symbol,req.direction,req.clientOrderId,.limit,
        req.direction.orderSide,req.qty,req.limitPrice,none,false⟩) hid (fun _ => ⟨rfl,rfl⟩) rfl rfl
  | placeStop symbol position stopPrice id =>
    exact h.joins (o := ⟨symbol,position,id,.stopMarket,position.opposite.orderSide,"0",none,
      some stopPrice,true⟩) ha nofun rfl (tradesUnder_protective b _ _ _ _ _ cid)
  | placeTakeProfit symbol position tp id =>
    exact h.joins (o := ⟨symbol,position,id,.takeProfitMarket,position.opposite.orderSide,"0",none,
      some tp,true⟩) ha nofun rfl (tradesUnder_protective b _ _ _ _ _ cid)
  | _ => exact ha.elim

theorem positive_askedBy {c : PaperCall} (ha : b.Accepts cid c) (hentry : (askedBy c).1=true) :
    Js.positive (askedBy c).2 := by
  cases c with
  | placeEntry req units => exact units
  | _ => cases hentry

/-- In every run, a query finds every accepted order, when the order does not trade in the moment it
is placed and no later call fills it against a smaller position of the other side. -/
theorem lookup_complete (start : ℚ) {before after : List PaperCall} {c : PaperCall} {cid : String}
    (hids : ∀ d ∈ before ++ after, d.orderId ≠ some cid) (ha : ((fresh start).run before).Accepts cid c)
    (hr : ((fresh start).run before).Rests c)
    (hroom : Throughout (Roomy cid) (((fresh start).run before).perform c) after) :
    ((fresh start).run (before ++ c::after)).Found cid := by
  obtain ⟨hbefore,hafter⟩ := List.forall_mem_append.mp hids
  have hrun : (fresh start).run (before ++ c::after)=
      (((fresh start).run before).perform c).run after := List.foldl_append
  rw [hrun]
  have h₀ : Stands cid (fresh start) none := .unplaced rfl rfl
  have h := run_stands (placed_stands (run_unplaced h₀ hbefore) ha hr) hafter hroom
  exact h.found (positive_askedBy ha)

/-- An entry that rests below the mark and fills on the way down, beside a long of its own side. -/
theorem restedEntry_found : ((fresh 10000).run stoppedOut).Found "e2" :=
  @lookup_complete 10000 (stoppedOut.take 3) (stoppedOut.drop 4)
    (.placeEntry ⟨"BTCUSDT",.long,"1",.limit,some "49000","e2"⟩ (by decide +kernel)) "e2"
    (by decide +kernel) (by decide +kernel) (by decide +kernel) (by decide +kernel)

/-- A market entry fills, and the query knows nothing of it. -/
theorem marketEntry_lost : ¬∀ (start : ℚ) (before after : List PaperCall) (c : PaperCall) (cid : String),
    (∀ d ∈ before ++ after, d.orderId ≠ some cid) → ((fresh start).run before).Accepts cid c →
      ((fresh start).run (before ++ c::after)).Found cid := by
  intro hall
  have h := hall 10000 (stoppedOut.take 1) [] (marketEntry .long "2" "e1" (by decide +kernel)) "e1"
    (by decide +kernel) (by decide +kernel)
  revert h
  decide +kernel

end PaperBackend
end TradeGate
