import TradeGate.Model.Paper
import TradeGate.Paper.Conservation

/-! Protective orders of the paper account.  The trigger test looks at the side of the position that
is open and not at the side the order was placed for, so an order placed without its position waits
for any later one.  Orders placed on their own open position never outlive it. -/
namespace TradeGate

/-- The deal opens or empties the position of the symbol. -/
def PaperDeal.turns (symbol : String) : PaperDeal → Prop
  | opened x _ => x=symbol
  | emptied x => x=symbol
  | _ => False

namespace PaperBackend

/-- The side of the position that stands after the deals. -/
def standing (symbol : String) (tape : List PaperDeal) : Option Direction :=
  tape.foldl (fun side d => match d with
    | .opened x d => if x=symbol then some d else side
    | .emptied x => if x=symbol then none else side
    | _ => side) none

/-- No position of the symbol is opened or emptied. -/
def Still (symbol : String) (ds : List PaperDeal) : Prop := ∀ d ∈ ds, ¬d.turns symbol

/-- The order was placed on a standing position of its side, which was not emptied since. -/
def Watches (tape : List PaperDeal) (o : PaperOrder) : Prop :=
  ∃ earlier later, tape=earlier ++ .placed o::later ∧
    standing o.symbol earlier=some o.positionSide ∧ Still o.symbol later

/-- Every trigger closed the position its order was placed for, at a mark past its price; every
protective order still in the book has that position open. -/
structure ProtectsOwn (b : PaperBackend) : Prop where
  triggers : ∀ (n : ℕ) (o : PaperOrder) (m : ℚ) (side : Direction),
    b.tape[n]?=some (.triggered o m side) →
    side=o.positionSide ∧ o.hit o.positionSide m ∧ Watches (b.tape.take n) o
  book : ∀ o ∈ b.orders, o.reduceOnly → (∃ p ∈ b.position o.symbol, p.side=o.positionSide) ∧
    Watches b.tape o

theorem standing_concat (symbol : String) (tape : List PaperDeal) (d : PaperDeal) :
    standing symbol (tape ++ [d])=match d with
      | .opened x d => if x=symbol then some d else standing symbol tape
      | .emptied x => if x=symbol then none else standing symbol tape
      | _ => standing symbol tape := by
  simp only [standing,List.foldl_append,List.foldl_cons,List.foldl_nil]

section
variable (x symbol : String) (tape : List PaperDeal)

@[simp] theorem standing_opened (side : Direction) : standing x (tape ++ [.opened symbol side])=
    if symbol=x then some side else standing x tape := standing_concat ..

@[simp] theorem standing_emptied : standing x (tape ++ [.emptied symbol])=
    if symbol=x then none else standing x tape := standing_concat ..

@[simp] theorem standing_traded (t : PaperTrade) : standing x (tape ++ [.traded t])=standing x tape :=
  standing_concat ..

@[simp] theorem standing_placed (o : PaperOrder) : standing x (tape ++ [.placed o])=standing x tape :=
  standing_concat ..

@[simp] theorem standing_triggered (o : PaperOrder) (m : ℚ) (side : Direction) :
    standing x (tape ++ [.triggered o m side])=standing x tape := standing_concat ..

end

theorem standing_still {symbol : String} {tape ds : List PaperDeal} (h : Still symbol ds) :
    standing symbol (tape ++ ds)=standing symbol tape := by
  induction ds generalizing tape with
  | nil => rw [List.append_nil]
  | cons d ds ih =>
    have hd := h d List.mem_cons_self
    rw [List.append_cons,ih fun x hx => h x (List.mem_cons_of_mem d hx),standing_concat]
    cases d <;> simp_all [PaperDeal.turns]

theorem Watches.append {tape ds : List PaperDeal} {o : PaperOrder} (h : Watches tape o)
    (hs : Still o.symbol ds) : Watches (tape ++ ds) o := by
  obtain ⟨earlier,later,rfl,hside,hstill⟩ := h
  refine ⟨earlier,later ++ ds,by simp,hside,fun d hd => ?_⟩
  exact (List.mem_append.mp hd).elim (hstill d) (hs d)

theorem Watches.standing {tape : List PaperDeal} {o : PaperOrder} (h : Watches tape o) :
    standing o.symbol tape=some o.positionSide := by
  obtain ⟨earlier,later,rfl,hside,hstill⟩ := h
  rw [List.append_cons,standing_still hstill,standing_placed,hside]

/-- The tape shows the open positions, and the orders protect what they were placed for. -/
structure Guards (b : PaperBackend) : Prop where
  shown : ∀ symbol, standing symbol b.tape=(b.position symbol).map (·.side)
  watches : ∀ o ∈ b.orders, o.reduceOnly → Watches b.tape o
  triggers : ∀ (n : ℕ) (o : PaperOrder) (m : ℚ) (side : Direction),
    b.tape[n]?=some (.triggered o m side) →
    side=o.positionSide ∧ o.hit o.positionSide m ∧ Watches (b.tape.take n) o

theorem Guards.side {b : PaperBackend} (h : b.Guards) {o : PaperOrder} (ho : o ∈ b.orders)
    (hr : o.reduceOnly) : ∃ p ∈ b.position o.symbol, p.side=o.positionSide := by
  have hs := (h.watches o ho hr).standing
  rw [h.shown] at hs
  obtain ⟨p,hp,hside⟩ := Option.map_eq_some_iff.mp hs
  exact ⟨p,hp,hside⟩

theorem Guards.protectsOwn {b : PaperBackend} (h : b.Guards) : b.ProtectsOwn :=
  ⟨h.triggers,fun o ho hr => ⟨h.side ho hr,h.watches o ho hr⟩⟩

/-- Deals that trigger nothing, while the book loses orders or keeps positions still. -/
theorem Guards.grow {b b' : PaperBackend} (h : b.Guards) (ds : List PaperDeal)
    (ht : b'.tape=b.tape ++ ds) (hq : ∀ d ∈ ds, ∀ o m side, d ≠ .triggered o m side)
    (hshown : ∀ symbol, standing symbol b'.tape=(b'.position symbol).map (·.side))
    (hbook : ∀ o ∈ b'.orders, o.reduceOnly → o ∈ b.orders ∧ Still o.symbol ds) : b'.Guards where
  shown := hshown
  watches := by
    intro o ho hr
    obtain ⟨hin,hstill⟩ := hbook o ho hr
    rw [ht]
    exact (h.watches o hin hr).append hstill
  triggers := by
    intro n o m side hn
    rw [ht] at hn ⊢
    by_cases hlt : n<b.tape.length
    · rw [List.getElem?_append_left hlt] at hn
      rw [List.take_append_of_le_length hlt.le]
      exact h.triggers n o m side hn
    · rw [List.getElem?_append_right (not_lt.mp hlt)] at hn
      exact absurd rfl (hq _ (List.mem_of_getElem? hn) o m side)

/-- No protective order waits where no position stands. -/
theorem Guards.none {b : PaperBackend} (h : b.Guards) {symbol : String}
    (hp : b.position symbol=none) : ∀ o ∈ b.orders, o.reduceOnly → o.symbol ≠ symbol := by
  rintro o ho hr rfl
  obtain ⟨p,hpos,-⟩ := h.side ho hr
  rw [hp] at hpos
  cases hpos

theorem position_upsert {b b' : PaperBackend} {p : PaperPosition}
    (h : b'.positions=b.positions.upsert p) (symbol : String) :
    b'.position symbol=if p.symbol=symbol then some p else b.position symbol := by
  rw [position,h,Keyed.Table.lookup_upsert,position]

theorem position_erase {b b' : PaperBackend} {symbol : String}
    (h : b'.positions=b.positions.erase symbol) (x : String) :
    b'.position x=if symbol=x then none else b.position x := by
  rw [position,h,Keyed.Table.lookup_erase,position]

/-- Replacing the position of a symbol by one on the same side turns nothing. -/
theorem Guards.resize {b b' : PaperBackend} (h : b.Guards) {p r : PaperPosition} {t : PaperTrade}
    (hp : b.position p.symbol=some p) (hr : b'.positions=b.positions.upsert r)
    (hsym : r.symbol=p.symbol) (hside : r.side=p.side) (ht : b'.tape=b.tape ++ [.traded t])
    (ho : b'.orders=b.orders) : b'.Guards := by
  refine h.grow _ ht (by simp) (fun symbol => ?_) fun o hin _ => ⟨ho ▸ hin,by simp [Still,PaperDeal.turns]⟩
  rw [ht,standing_traded,h.shown,position_upsert hr,hsym]
  split
  next hs =>
    subst hs
    simp [hp,hside]
  next => rfl

theorem closeAt_guards {b : PaperBackend} (h : b.Guards) (order : String) (entry : Bool)
    (symbol : String) (price : ℚ) (units : Option ℚ) :
    (b.closeAt order entry symbol price units).2.Guards := by
  cases hp : b.position symbol with
  | none =>
    simp only [closeAt,hp]
    exact h
  | some p =>
    have hps := position_symbol hp
    simp only [closeAt,hp]
    split
    · -- the position is gone, and its protective orders with it
      refine h.grow [.traded _,.emptied symbol] (List.append_assoc _ _ _) (by simp)
        (fun x => ?_) fun o hin hr => ?_
      · refine Eq.trans (standing_emptied x symbol _) ?_
        rw [position_erase (b := b) rfl]
        refine Eq.trans (congrArg (fun r => if symbol=x then Option.none else r)
          (standing_traded x b.tape _)) ?_
        rw [h.shown]
        split <;> rfl
      · have hin' : o ∈ b.orders.filter fun o => ¬(o.symbol=symbol ∧ o.reduceOnly) := hin
        obtain ⟨hmem,hkeep⟩ := List.mem_filter.mp hin'
        have hne : o.symbol ≠ symbol := fun hs => by simp [hs,hr] at hkeep
        exact ⟨hmem,by simp [Still,PaperDeal.turns,hne.symm]⟩
    · subst hps
      exact h.resize hp rfl rfl rfl rfl rfl

theorem fill_guards {b : PaperBackend} (h : b.Guards) (order symbol : String) (side : Direction)
    (qty price : ℚ) (leverage : ℕ) : (b.fill order symbol side qty price leverage).Guards := by
  cases hp : b.position symbol with
  | none =>
    rw [fill_of_none order price leverage hp]
    refine h.grow [.opened symbol side,.traded _] (List.append_assoc _ _ _) (by simp)
      (fun x => ?_) fun o hin hr =>
        ⟨hin,by simp [Still,PaperDeal.turns,(h.none hp o hin hr).symm]⟩
    refine Eq.trans (standing_traded x _ _) ?_
    rw [standing_opened,h.shown]
    refine Eq.trans ?_ (congrArg (Option.map _) (position_upsert (b := b) rfl x).symm)
    split <;> rfl
  | some p =>
    have hps := position_symbol hp
    by_cases hside : p.side=side
    · rw [fill_of_side order price leverage hp hside]
      subst hps
      exact h.resize hp rfl rfl rfl rfl rfl
    · simp only [fill,hp,if_neg hside]
      have hpaid : Guards { b with wallet := b.wallet-price*qty*feeRate } := ⟨h.shown,h.watches,h.triggers⟩
      exact closeAt_guards hpaid order true symbol price (some qty)

/-- Dropping orders, and what the tape does not see. -/
theorem Guards.fewer {b b' : PaperBackend} (h : b.Guards) (ht : b'.tape=b.tape)
    (hp : b'.positions=b.positions) (ho : ∀ o ∈ b'.orders, o.reduceOnly → o ∈ b.orders) : b'.Guards := by
  refine h.grow [] (by rw [ht,List.append_nil]) (List.forall_mem_nil _) (fun symbol => ?_)
    fun o hin hr => ⟨ho o hin hr,List.forall_mem_nil _⟩
  rw [ht,h.shown,position,position,hp]

theorem fillResting_guards {symbol : String} {os : List PaperOrder} {b : PaperBackend}
    (h : b.Guards) : (fillResting symbol os b).2.Guards := by
  induction os generalizing b with
  | nil => exact h
  | cons o os ih =>
    unfold fillResting
    split
    · exact ih ((fill_guards h _ _ _ _ _ _).fewer rfl rfl fun x hx _ => List.mem_of_mem_erase hx)
    · exact ih h

/-- The order that goes off is one of the book, so the position it closes is its own. -/
theorem trigger_guards {b : PaperBackend} (h : b.Guards) (symbol : String) :
    (b.trigger symbol).2.Guards := by
  unfold trigger
  split
  · exact h
  next p hp =>
    split
    · exact h
    next o ho =>
      have hin := List.mem_of_find?_eq_some ho
      have hfound := List.find?_some ho
      simp only [decide_eq_true_eq] at hfound
      obtain ⟨hsym,hr,hhit⟩ := hfound
      obtain ⟨r,hpos,hside⟩ := h.side hin hr
      rw [hsym,hp] at hpos
      cases hpos
      have hrec : (b.record (.triggered o (b.mark symbol) p.side)).Guards := by
        refine ⟨fun x => ?_,fun x hx hxr => ?_,fun n x m side hn => ?_⟩
        · exact (standing_triggered x b.tape o (b.mark symbol) p.side).trans (h.shown x)
        · exact (h.watches x hx hxr).append (by simp [Still,PaperDeal.turns])
        · have hn' : (b.tape ++ [PaperDeal.triggered o (b.mark symbol) p.side])[n]?=
              some (.triggered x m side) := hn
          change _ ∧ _ ∧ Watches ((b.tape ++ [PaperDeal.triggered o (b.mark symbol) p.side]).take n) x
          by_cases hlt : n<b.tape.length
          · rw [List.getElem?_append_left hlt] at hn'
            rw [List.take_append_of_le_length hlt.le]
            exact h.triggers n x m side hn'
          · have hlen : n=b.tape.length := by
              have hlt' := (List.getElem?_eq_some_iff.mp hn').1
              simp only [List.length_append,List.length_singleton] at hlt'
              omega
            subst hlen
            simp only [List.getElem?_concat_length,Option.some.injEq,PaperDeal.triggered.injEq] at hn'
            obtain ⟨rfl,rfl,rfl⟩ := hn'
            rw [List.take_left]
            exact ⟨hside,hside ▸ hhit,h.watches o hin hr⟩
      exact (closeAt_guards hrec o.clientOrderId false symbol
        (Js.value (o.stopPrice.getD "0")) none).fewer rfl rfl fun x hx _ => hx

/-- A protective order placed on its own open position. -/
theorem protective_guards {b : PaperBackend} (h : b.Guards) {symbol price id : String}
    {position : Direction} {type : PaperOrderType}
    (hp : ∃ p ∈ b.position symbol, p.side=position) :
    (b.protective symbol position price id type).2.Guards := by
  obtain ⟨p,hpos,hside⟩ := hp
  let o : PaperOrder := ⟨symbol,position,id,type,position.opposite.orderSide,"0",none,some price,true⟩
  have hshow : standing symbol b.tape=some position := by
    rw [h.shown,hpos,Option.map_some,hside]
  have htape : (b.protective symbol position price id type).2.tape=b.tape ++ [.placed o] := by
    simp only [protective,record,o]
  refine ⟨fun x => ?_,fun x hx hr => ?_,fun n x m side hn => ?_⟩
  · rw [htape,standing_placed]
    exact h.shown x
  · rw [htape]
    have hx' : x ∈ b.orders ++ [o] := hx
    rcases List.mem_append.mp hx' with hx'|hx'
    · exact (h.watches x hx' hr).append (by simp [Still,PaperDeal.turns])
    · cases List.mem_singleton.mp hx'
      exact ⟨b.tape,[],rfl,hshow,List.forall_mem_nil _⟩
  · rw [htape] at hn ⊢
    by_cases hlt : n<b.tape.length
    · rw [List.getElem?_append_left hlt] at hn
      rw [List.take_append_of_le_length hlt.le]
      exact h.triggers n x m side hn
    · rw [List.getElem?_append_right (not_lt.mp hlt)] at hn
      have hin := List.mem_of_getElem? hn
      simp at hin

/-- A protective order is placed on an open position of its side. -/
def Backed (b : PaperBackend) : PaperCall → Prop
  | .placeStop symbol position _ _ => ∃ p ∈ b.position symbol, p.side=position
  | .placeTakeProfit symbol position _ _ => ∃ p ∈ b.position symbol, p.side=position
  | _ => True

theorem perform_guards {b : PaperBackend} (h : b.Guards) {c : PaperCall} (hb : b.Backed c) :
    (b.perform c).Guards := by
  cases c with
  | setMark symbol m hm => exact h.fewer rfl rfl fun o ho _ => ho
  | setLeverage symbol leverage => exact h.fewer rfl rfl fun o ho _ => ho
  | placeEntry req hq =>
    change (b.placeEntry req).2.Guards
    rcases b.placeEntry_cases req with ⟨-,hp⟩|⟨-,-,hp⟩|⟨-,-,hp⟩
    · rw [hp]
      exact h
    · rw [hp]
      exact fill_guards h ..
    · rw [hp]
      refine h.fewer rfl rfl fun o ho hr => ?_
      rcases List.mem_append.mp ho with ho|ho
      · exact ho
      · cases List.mem_singleton.mp ho
        cases hr
  | placeStop symbol position price id => exact protective_guards h hb
  | placeTakeProfit symbol position price id => exact protective_guards h hb
  | closePosition symbol id =>
    simp only [perform,closePosition]
    split
    · exact h
    · exact closeAt_guards h _ _ _ _ _
  | reducePosition symbol qty id hq =>
    simp only [perform,reducePosition]
    split
    · exact h
    · exact closeAt_guards h _ _ _ _ _
  | cancelAll symbol => exact h.fewer rfl rfl fun o ho _ => List.mem_of_mem_filter ho
  | cancelOrder symbol cid =>
    simp only [perform,cancelOrder]
    split
    · exact h
    · exact h.fewer rfl rfl fun o ho _ => List.mem_of_mem_erase ho
  | tick symbol m hm =>
    have hmark : (b.setMark symbol m).Guards := h.fewer rfl rfl fun o ho _ => ho
    exact trigger_guards (fillResting_guards hmark) symbol

theorem fresh_guards (start : ℚ) : (fresh start).Guards := ⟨fun _ => rfl,nofun,nofun⟩

/-- Orders placed on their own open position close that position or nothing. -/
theorem protects_own (start : ℚ) (calls : List PaperCall)
    (h : Throughout Backed (fresh start) calls) : ((fresh start).run calls).ProtectsOwn :=
  (Machine.run_invariant (I := Guards) (fun _ _ hg hb => perform_guards hg hb)
    (fresh_guards start) h).protectsOwn

instance (b : PaperBackend) : (c : PaperCall) → Decidable (b.Backed c)
  | .placeStop symbol position _ _ => inferInstanceAs
      (Decidable (∃ p ∈ b.position symbol, p.side=position))
  | .placeTakeProfit symbol position _ _ => inferInstanceAs
      (Decidable (∃ p ∈ b.position symbol, p.side=position))
  | .setMark _ _ _ | .setLeverage _ _ | .placeEntry _ _ | .closePosition _ _ | .reducePosition _ _ _ _
  | .cancelAll _ | .cancelOrder _ _ | .tick _ _ _ => .isTrue trivial

theorem stoppedOut_protectsOwn : ((fresh 10000).run stoppedOut).ProtectsOwn :=
  protects_own 10000 stoppedOut (by decide +kernel)

theorem positive_one : Js.positive "1" := by decide +kernel

theorem positive_48500 : Js.positive "48500" := by decide +kernel

/-- A long stop without a long waits for the short that comes later, and closes it on the way up. -/
def strayStop : List PaperCall :=
  [.placeStop "BTCUSDT" .long "48000" "s1",.setMark "BTCUSDT" "47000" (by decide +kernel),
    marketEntry .short "1" "e1" positive_one,.tick "BTCUSDT" "48500" positive_48500]

theorem strayStop_closesShort : ¬((fresh 10000).run strayStop).ProtectsOwn := by
  intro h
  have hshort : ((fresh 10000).run strayStop).tape[3]?=some (.triggered ⟨"BTCUSDT",.long,"s1",
      .stopMarket,"SELL","0",none,some "48000",true⟩ 48500 .short) := by decide +kernel
  exact absurd (h.triggers 3 _ _ _ hshort).1 (by decide)

end PaperBackend
end TradeGate
