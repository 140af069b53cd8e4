import Mathlib.Tactic.Linarith
import Mathlib.Tactic.LinearCombination
import Mathlib.Tactic.Ring
import TradeGate.Model.Paper

/-! Conservation of money on the paper account.  Equity moves by what the marks do to the open
positions, by the edge of each trade against the mark, and by one fee for each traded unit; every
unit of an accepted entry is traded, resting or withdrawn.  All of it fails once an entry fills
against a position of the other side: the fee is charged twice, on units that may not trade. -/
namespace TradeGate

/-- What the trade gains against the mark. -/
def PaperTrade.edge (t : PaperTrade) (mark : ℚ) : ℚ := t.bought.gain t.price mark*t.qty

@[simp] theorem Direction.gain_opposite (d : Direction) (x y : ℚ) :
    d.opposite.gain x y=-d.gain x y := by
  cases d <;> simp [gain,opposite]

theorem Direction.gain_add (d : Direction) (x y z : ℚ) : d.gain x y+d.gain y z=d.gain x z := by
  cases d <;> simp [gain]

namespace PaperBackend

def tradesOf (tape : List PaperDeal) : List PaperTrade :=
  tape.filterMap fun d => match d with
    | .traded t => some t
    | _ => none

def edgeOf (b : PaperBackend) (ts : List PaperTrade) : ℚ :=
  (ts.map fun t => t.edge (b.mark t.symbol)).sum

def turnoverOf (ts : List PaperTrade) : ℚ := (ts.map fun t => t.qty*t.price).sum

/-- Units that entries under the order id have traded. -/
def unitsFor (cid : String) (ts : List PaperTrade) : ℚ :=
  (ts.map fun t => if t.entry ∧ t.order=cid then t.qty else 0).sum

@[simp] theorem unitsFor_nil (cid : String) : unitsFor cid []=0 := rfl

theorem unitsFor_append (cid : String) (ts us : List PaperTrade) :
    unitsFor cid (ts ++ us)=unitsFor cid ts+unitsFor cid us := by
  simp [unitsFor]

/-- Units of the entries under the order id among the orders. -/
def unitsUnder (cid : String) (os : List PaperOrder) : ℚ :=
  (os.map fun o => if o.type=.limit ∧ o.clientOrderId=cid then Js.value o.qty else 0).sum

/-- Units of entries under the order id that still rest. -/
def restingUnits (b : PaperBackend) (cid : String) : ℚ := unitsUnder cid b.orders

/-- Every position has units and a mark, and every resting entry asks for units. -/
structure Sound (b : PaperBackend) : Prop where
  held : ∀ symbol, ∀ p ∈ b.position symbol, 0<p.qty ∧ 0<b.mark symbol
  book : ∀ o ∈ b.orders, o.type=.limit → o.reduceOnly=false ∧ 0<Js.value o.qty

/-- From `b` to `b'` exactly the trades `ts` were made, at unchanged marks, and paid for once. -/
structure Moved (b b' : PaperBackend) (ts : List PaperTrade) : Prop where
  marks : b'.marks=b.marks
  tape : tradesOf b'.tape=tradesOf b.tape ++ ts
  equity : b'.equity=b.equity+b.edgeOf ts-feeRate*turnoverOf ts
  sound : b'.Sound

theorem mark_congr {b b' : PaperBackend} (h : b'.marks=b.marks) (symbol : String) :
    b'.mark symbol=b.mark symbol := by unfold mark; rw [h]

theorem Moved.refl {b : PaperBackend} (h : b.Sound) : Moved b b [] :=
  ⟨rfl,by simp,by simp [edgeOf,turnoverOf],h⟩

theorem Moved.trans {b b' b'' : PaperBackend} {ts us : List PaperTrade} (h : Moved b b' ts)
    (h' : Moved b' b'' us) : Moved b b'' (ts ++ us) where
  marks := h'.marks.trans h.marks
  tape := by rw [h'.tape,h.tape,List.append_assoc]
  equity := by
    have hedge : b'.edgeOf us=b.edgeOf us := by simp [edgeOf,mark_congr h.marks]
    rw [h'.equity,h.equity,hedge]
    simp only [edgeOf,turnoverOf,List.map_append,List.sum_append]
    ring
  sound := h'.sound

/-- A change of the order book alone moves no money. -/
theorem Moved.of_orders {b b' : PaperBackend} (hs : b.Sound) (hw : b'.wallet=b.wallet)
    (hp : b'.positions=b.positions) (hm : b'.marks=b.marks) (ht : tradesOf b'.tape=tradesOf b.tape)
    (hb : ∀ o ∈ b'.orders, o.type=.limit → o.reduceOnly=false ∧ 0<Js.value o.qty) :
    Moved b b' [] where
  marks := hm
  tape := by rw [ht,List.append_nil]
  equity := by
    have hu : b'.unrealized=b.unrealized := by
      funext p
      simp only [unrealized,mark_congr hm]
    simp [PaperBackend.equity,hw,hp,hu,edgeOf,turnoverOf]
  sound := by
    refine ⟨fun symbol p h => ?_,hb⟩
    rw [mark_congr hm]
    exact hs.held symbol p (by rwa [position,hp] at h)

theorem position_symbol {b : PaperBackend} {symbol : String} {p : PaperPosition}
    (h : p ∈ b.position symbol) : p.symbol=symbol := Keyed.Table.key_of_lookup h

theorem unrealized_congr {b b' : PaperBackend} (h : b'.marks=b.marks) :
    b'.unrealized=b.unrealized := by
  funext p
  simp only [unrealized,mark_congr h]

theorem unrealized_of_mark {b : PaperBackend} {p : PaperPosition} (h : 0<b.mark p.symbol) :
    b.unrealized p=p.side.gain p.entry (b.mark p.symbol)*p.qty := by
  simp only [unrealized,if_neg h.ne']

theorem equity_def (b : PaperBackend) : b.equity=b.wallet+b.positions.total b.unrealized := rfl

/-! One position is replaced, or taken away. -/
section
variable {b b' : PaperBackend} {p : PaperPosition}

theorem equity_upsert (hp : b'.positions=b.positions.upsert p) (hm : b'.marks=b.marks) :
    b'.equity=b.equity+(b'.wallet-b.wallet)+b.unrealized p-
      (b.position p.symbol).elim 0 b.unrealized := by
  rw [equity_def,equity_def,hp,unrealized_congr hm,Keyed.Table.total_upsert,position]
  ring

theorem Sound.upsert (h : b.Sound) (hp : b'.positions=b.positions.upsert p)
    (hm : b'.marks=b.marks) (ho : b'.orders=b.orders) (hq : 0<p.qty) (hmark : 0<b.mark p.symbol) :
    b'.Sound where
  held := by
    intro symbol r hr
    rw [position,hp,Keyed.Table.lookup_upsert] at hr
    rw [mark_congr hm]
    split at hr
    next hs =>
      cases hr
      exact ⟨hq,hs ▸ hmark⟩
    next => exact h.held symbol r hr
  book := ho ▸ h.book

theorem equity_erase {symbol : String} (hp : b'.positions=b.positions.erase symbol)
    (hm : b'.marks=b.marks) :
    b'.equity=b.equity+(b'.wallet-b.wallet)-(b.position symbol).elim 0 b.unrealized := by
  rw [equity_def,equity_def,hp,unrealized_congr hm,Keyed.Table.total_erase,position]
  ring

theorem Sound.erase (h : b.Sound) {symbol : String} (hp : b'.positions=b.positions.erase symbol)
    (hm : b'.marks=b.marks) (ho : ∀ o ∈ b'.orders, o ∈ b.orders) : b'.Sound where
  held := by
    intro s r hr
    rw [position,hp,Keyed.Table.lookup_erase] at hr
    rw [mark_congr hm]
    split at hr
    next => cases hr
    next => exact h.held s r hr
  book := fun o hin => h.book o (ho o hin)

end

section
variable {b : PaperBackend} {symbol : String} {side : Direction} {qty : ℚ} (order : String) (price : ℚ)
  (leverage : ℕ)

theorem fill_of_none (h : b.position symbol=none) :
    b.fill order symbol side qty price leverage=
      { b with
        wallet := b.wallet-price*qty*feeRate
        positions := b.positions.upsert ⟨symbol,side,qty,price,leverage⟩
        tape := b.tape ++ [.opened symbol side] ++ [.traded ⟨order,true,symbol,side,qty,price⟩] } := by
  simp only [fill,h,record]

theorem fill_of_side {p : PaperPosition} (h : b.position symbol=some p) (hside : p.side=side) :
    b.fill order symbol side qty price leverage=
      { b with
        wallet := b.wallet-price*qty*feeRate
        positions := b.positions.upsert
          { p with entry := (p.entry*p.qty+price*qty)/(p.qty+qty), qty := p.qty+qty }
        tape := b.tape ++ [.traded ⟨order,true,symbol,side,qty,price⟩] } := by
  simp only [fill,h,if_pos hside,record]

theorem fill_moved (hs : b.Sound) (hq : 0<qty) (hm : 0<b.mark symbol)
    (hside : ∀ p ∈ b.position symbol, p.side=side) :
    Moved b (b.fill order symbol side qty price leverage)
      [⟨order,true,symbol,side,qty,price⟩] := by
  cases hp : b.position symbol with
  | none =>
    rw [fill_of_none order price leverage hp]
    refine ⟨rfl,by simp [tradesOf],?_,hs.upsert rfl rfl rfl hq hm⟩
    have hnew : b.unrealized ⟨symbol,side,qty,price,leverage⟩=
        side.gain price (b.mark symbol)*qty := unrealized_of_mark (p := ⟨symbol,side,qty,price,leverage⟩) hm
    refine Eq.trans (equity_upsert (b := b) rfl rfl) ?_
    rw [hnew,hp]
    simp only [edgeOf,turnoverOf,PaperTrade.edge,Option.elim_none,List.map_cons,List.map_nil,
      List.sum_cons,List.sum_nil]
    ring
  | some p =>
    have hps := position_symbol hp
    have hpq := (hs.held symbol p hp).1
    have hd := hside p hp
    rw [fill_of_side order price leverage hp hd]
    refine ⟨rfl,by simp [tradesOf],?_,hs.upsert rfl rfl rfl (add_pos hpq hq) (hps ▸ hm)⟩
    have hmp : 0<b.mark p.symbol := hps ▸ hm
    have hold : b.unrealized p=p.side.gain p.entry (b.mark symbol)*p.qty := by
      rw [unrealized_of_mark hmp,hps]
    have hnew : b.unrealized { p with entry := (p.entry*p.qty+price*qty)/(p.qty+qty), qty := p.qty+qty }=
        p.side.gain ((p.entry*p.qty+price*qty)/(p.qty+qty)) (b.mark symbol)*(p.qty+qty) := by
      rw [← hps]
      exact unrealized_of_mark (p := { p with entry := _, qty := _ }) hmp
    refine Eq.trans (equity_upsert (b := b) rfl rfl) ?_
    rw [hnew]
    simp only [hps,hp,Option.elim_some,hold,edgeOf,turnoverOf,PaperTrade.edge,List.map_cons,
      List.map_nil,List.sum_cons,List.sum_nil]
    -- the average entry is worth what the two entries are worth
    have havg : (p.entry*p.qty+price*qty)/(p.qty+qty)*(p.qty+qty)=p.entry*p.qty+price*qty :=
      div_mul_cancel₀ _ (add_pos hpq hq).ne'
    subst hd
    cases p.side with
    | long =>
      simp only [Direction.gain,if_true]
      linear_combination -havg
    | short =>
      simp only [Direction.gain,reduceCtorEq,if_false]
      linear_combination havg

theorem mem_orders_of_close {o : PaperOrder}
    (h : o ∈ b.orders.filter fun o => ¬(o.symbol=symbol ∧ o.reduceOnly)) : o ∈ b.orders :=
  List.mem_of_mem_filter h

/-- A close trades its units once, when it leaves no dust behind. -/
theorem closeAt_moved {p : PaperPosition} (entry : Bool) (units : Option ℚ) (hs : b.Sound)
    (hp : b.position symbol=some p) (hu : ∀ x ∈ units, 0<x ∧ (p.qty ≤ x ∨ x<p.qty-dust)) :
    Moved b (b.closeAt order entry symbol price units).2
      [⟨order,entry,symbol,p.side.opposite,min p.qty (units.getD p.qty),price⟩] := by
  obtain ⟨hpq,hm⟩ := hs.held symbol p hp
  have hps := position_symbol hp
  have hold : b.unrealized p=p.side.gain p.entry (b.mark symbol)*p.qty := by
    rw [unrealized_of_mark (hps ▸ hm),hps]
  have hgain := p.side.gain_add p.entry price (b.mark symbol)
  have hdust : (0 : ℚ)<dust := by decide +kernel
  simp only [closeAt,hp]
  split
  next hall =>
    have hq : min p.qty (units.getD p.qty)=p.qty := by
      cases units with
      | none => simp
      | some x =>
        rcases (hu x rfl).2 with hx|hx
        · exact min_eq_left hx
        · have hle := hall.trans (min_le_right _ _)
          rw [Option.getD_some] at hle
          linarith
    rw [hq]
    refine ⟨rfl,by simp [tradesOf,record,finish],?_,
      hs.erase rfl rfl fun o ho => mem_orders_of_close ho⟩
    refine Eq.trans (equity_erase (b := b) rfl rfl) ?_
    rw [hp,Option.elim_some,hold]
    simp only [edgeOf,turnoverOf,PaperTrade.edge,record,finish,Direction.gain_opposite,List.map_cons,
      List.map_nil,List.sum_cons,List.sum_nil]
    linear_combination p.qty*hgain
  next hpart =>
    have hlt : min p.qty (units.getD p.qty)<p.qty := by linarith
    refine ⟨rfl,by simp [tradesOf,record],?_,
      hs.upsert rfl rfl rfl (by simpa using hlt) (hps ▸ hm)⟩
    have hnew : b.unrealized { p with qty := p.qty-min p.qty (units.getD p.qty) }=
        p.side.gain p.entry (b.mark symbol)*(p.qty-min p.qty (units.getD p.qty)) := by
      rw [← hps]
      exact unrealized_of_mark (p := { p with qty := _ }) (hps ▸ hm)
    refine Eq.trans (equity_upsert (b := b) rfl rfl) ?_
    rw [hnew]
    simp only [hps,hp,Option.elim_some,hold,edgeOf,turnoverOf,PaperTrade.edge,record,
      Direction.gain_opposite,List.map_cons,List.map_nil,List.sum_cons,List.sum_nil]
    linear_combination min p.qty (units.getD p.qty)*hgain

end

theorem sum_map_filter {α : Type} {q : α → Prop} [DecidablePred q] {f : α → ℚ} {l : List α}
    (h : ∀ a ∈ l, ¬q a → f a=0) : ((l.filter q).map f).sum=(l.map f).sum := by
  induction l with
  | nil => rfl
  | cons a l ih =>
    have hl := ih fun x hx => h x (List.mem_cons_of_mem a hx)
    by_cases ha : q a
    · rw [List.filter_cons_of_pos (by simpa using ha),List.map_cons,List.map_cons,List.sum_cons,
        List.sum_cons,hl]
    · rw [List.filter_cons_of_neg (by simpa using ha),List.map_cons,List.sum_cons,hl,
        h a List.mem_cons_self ha,zero_add]

/-- The units of the orders of a kind and of the others. -/
theorem unitsUnder_filter (cid : String) (q : PaperOrder → Prop) [DecidablePred q] (os : List PaperOrder) :
    unitsUnder cid (os.filter fun o => q o)+unitsUnder cid (os.filter fun o => ¬q o)=unitsUnder cid os := by
  induction os with
  | nil => exact add_zero _
  | cons o os ih =>
    unfold unitsUnder at ih ⊢
    by_cases ho : q o
    · simp [ho,add_assoc,← ih]
    · simp [ho,add_left_comm,← ih]

theorem unitsUnder_erase (cid : String) {o : PaperOrder} {os : List PaperOrder} (ho : o ∈ os) :
    unitsUnder cid [o]+unitsUnder cid (os.erase o)=unitsUnder cid os := by
  simp only [unitsUnder,List.map_singleton,List.sum_singleton]
  exact List.sum_map_erase (fun o : PaperOrder => if o.type=.limit ∧ o.clientOrderId=cid then
    Js.value o.qty else 0) ho

/-- A close withdraws protective orders only. -/
theorem closeAt_restingUnits {b : PaperBackend} (hs : b.Sound) (order : String) (entry : Bool)
    (symbol : String) (price : ℚ) (units : Option ℚ) (cid : String) :
    (b.closeAt order entry symbol price units).2.restingUnits cid=b.restingUnits cid := by
  unfold closeAt
  split
  · rfl
  · dsimp only
    split
    · refine sum_map_filter fun o ho hgone => if_neg fun hlim => ?_
      have hred := (hs.book o ho hlim.1).1
      simp [hred] at hgone
    · rfl

theorem fill_orders {b : PaperBackend} {symbol : String} {side : Direction} (order : String)
    (qty price : ℚ) (leverage : ℕ) (hside : ∀ p ∈ b.position symbol, p.side=side) :
    (b.fill order symbol side qty price leverage).orders=b.orders := by
  cases hp : b.position symbol with
  | none => rw [fill_of_none order price leverage hp]
  | some p => rw [fill_of_side order price leverage hp (hside p hp)]

theorem fill_position {b : PaperBackend} {symbol : String} {side : Direction} (order : String)
    (qty price : ℚ) (leverage : ℕ) (hside : ∀ p ∈ b.position symbol, p.side=side) :
    ∀ p ∈ (b.fill order symbol side qty price leverage).position symbol, p.side=side := by
  cases hp : b.position symbol with
  | none =>
    rw [fill_of_none order price leverage hp]
    intro p h
    rw [position,Keyed.Table.lookup_upsert] at h
    cases (if_pos rfl).symm.trans h
    rfl
  | some r =>
    rw [fill_of_side order price leverage hp (hside r hp)]
    intro p h
    rw [position,Keyed.Table.lookup_upsert] at h
    cases (if_pos (position_symbol hp)).symm.trans h
    exact hside r hp

/-- The resting entries that a mark reaches agree with each other and with the position. -/
def Agree (b : PaperBackend) (symbol : String) (m : ℚ) (os : List PaperOrder) : Prop :=
  ∀ o ∈ os, o.reached m → (∀ p ∈ b.position symbol, p.side=o.positionSide) ∧
    ∀ o' ∈ os, o'.reached m → o'.positionSide=o.positionSide

theorem fillResting_moved {symbol : String} (os : List PaperOrder) {b : PaperBackend} (hs : b.Sound)
    (hm : 0<b.mark symbol) (hlim : ∀ o ∈ os, o.type=.limit) (hsub : os.Subperm b.orders)
    (hagree : b.Agree symbol (b.mark symbol) os) :
    ∃ ts, Moved b (fillResting symbol os b).2 ts ∧
      ∀ cid, unitsFor cid ts+(fillResting symbol os b).2.restingUnits cid=b.restingUnits cid := by
  induction os generalizing b with
  | nil => exact ⟨[],Moved.refl hs,fun cid => by simp [unitsFor,fillResting]⟩
  | cons o os ih =>
    have ho : o ∈ b.orders := hsub.subset List.mem_cons_self
    have hlim' : ∀ x ∈ os, x.type=.limit := fun x hx => hlim x (List.mem_cons_of_mem o hx)
    by_cases hr : o.reached (b.mark symbol)
    · obtain ⟨hside,hsame⟩ := hagree o List.mem_cons_self hr
      have hfill := fill_moved o.clientOrderId (Js.value (o.price.getD "0")) (b.leverageOf symbol) hs
        (hs.book o ho (hlim o List.mem_cons_self)).2 hm hside
      have horders := fill_orders o.clientOrderId (Js.value o.qty) (Js.value (o.price.getD "0"))
        (b.leverageOf symbol) hside
      have hpos := fill_position o.clientOrderId (Js.value o.qty) (Js.value (o.price.getD "0"))
        (b.leverageOf symbol) hside
      simp only [fillResting,if_pos hr]
      set b1 := b.fill o.clientOrderId symbol o.positionSide (Js.value o.qty)
        (Js.value (o.price.getD "0")) (b.leverageOf symbol)
      set b2 := finish { b1 with orders := b1.orders.erase o }
        ⟨.filled,some (Js.text (Js.value (o.price.getD "0"))),o.qty⟩ [o]
      have hdrop : Moved b1 b2 [] := .of_orders hfill.sound rfl rfl rfl rfl
        fun x hx => hfill.sound.book x (List.mem_of_mem_erase hx)
      have hmark : b2.mark symbol=b.mark symbol := mark_congr (hdrop.marks.trans hfill.marks) symbol
      have hsub' : os.Subperm b2.orders := by
        have h := hsub.erase o
        rwa [List.erase_cons_head,← horders] at h
      obtain ⟨ts,hts,hunits⟩ := ih hdrop.sound (hmark ▸ hm) hlim' hsub' (by
        rw [hmark]
        intro x hx hxr
        have hxo := hsame x (List.mem_cons_of_mem o hx) hxr
        refine ⟨fun p hp => (hpos p hp).trans hxo.symm,fun y hy hyr => ?_⟩
        exact (hsame y (List.mem_cons_of_mem o hy) hyr).trans hxo.symm)
      refine ⟨_,(hfill.trans hdrop).trans hts,fun cid => ?_⟩
      have herase := List.sum_map_erase (fun x : PaperOrder =>
        if x.type=.limit ∧ x.clientOrderId=cid then Js.value x.qty else 0) ho
      have hrest : b2.restingUnits cid=((b.orders.erase o).map fun x : PaperOrder =>
          if x.type=.limit ∧ x.clientOrderId=cid then Js.value x.qty else 0).sum := by
        rw [← horders]
        rfl
      have hu := hunits cid
      have hot := hlim o List.mem_cons_self
      rw [hrest] at hu
      have hb : b.restingUnits cid=_ := herase.symm
      rw [hb,List.append_nil,unitsFor_append,add_assoc,hu]
      simp [unitsFor,hot]
    · have hfill : fillResting symbol (o::os) b=fillResting symbol os b := by
        rw [fillResting,if_neg hr]
      rw [hfill]
      exact ih hs hm hlim' ((List.sublist_cons_self o os).subperm.trans hsub)
        fun x hx hxr => ⟨(hagree x (List.mem_cons_of_mem o hx) hxr).1,
          fun y hy => (hagree x (List.mem_cons_of_mem o hx) hxr).2 y (List.mem_cons_of_mem o hy)⟩

/-- A protective order closes the whole position; no entry trades. -/
theorem trigger_moved {b : PaperBackend} (hs : b.Sound) (symbol : String) :
    ∃ ts, Moved b (b.trigger symbol).2 ts ∧
      ∀ cid, unitsFor cid ts+(b.trigger symbol).2.restingUnits cid=b.restingUnits cid := by
  have hnone : ∃ ts, Moved b b ts ∧ ∀ cid, unitsFor cid ts+b.restingUnits cid=b.restingUnits cid :=
    ⟨[],Moved.refl hs,fun cid => by simp [unitsFor]⟩
  unfold trigger
  split
  · exact hnone
  next p hp =>
    split
    · exact hnone
    next o ho =>
      have hrec : Moved b (b.record (.triggered o (b.mark symbol) p.side)) [] :=
        .of_orders hs rfl rfl rfl (by simp [tradesOf,record]) hs.book
      have hclose := closeAt_moved o.clientOrderId (Js.value (o.stopPrice.getD "0")) false none
        hrec.sound hp nofun
      have hend : Moved _ (amend _ ⟨.filled,some (Js.text (Js.value (o.stopPrice.getD "0"))),
          Js.text p.qty⟩ o) [] := .of_orders hclose.sound rfl rfl rfl rfl hclose.sound.book
      refine ⟨_,(hrec.trans hclose).trans hend,fun cid => ?_⟩
      have hrest := closeAt_restingUnits hrec.sound o.clientOrderId false symbol
        (Js.value (o.stopPrice.getD "0")) none cid
      exact (congrArg₂ (·+·) (by simp [unitsFor]) hrest).trans (zero_add _)

/-- The account at the new mark that a call brings, if it brings one. -/
def remark (b : PaperBackend) : PaperCall → PaperBackend
  | .setMark symbol mark _ => b.setMark symbol mark
  | .tick symbol mark _ => b.setMark symbol mark
  | _ => b

/-- What the new marks of a call do to the open positions. -/
def driftOf (b : PaperBackend) (c : PaperCall) : ℚ :=
  b.positions.total fun p => p.side.gain (b.mark p.symbol) ((b.perform c).mark p.symbol)*p.qty

theorem setMark_sound {b : PaperBackend} (hs : b.Sound) (symbol : String) {m : String} (hm : Js.positive m) :
    (b.setMark symbol m).Sound := by
  refine ⟨fun s p hp => ⟨(hs.held s p hp).1,?_⟩,hs.book⟩
  rw [mark_setMark]
  split
  · exact Js.value_pos hm
  · exact (hs.held s p hp).2

theorem remark_sound {b : PaperBackend} (hs : b.Sound) (c : PaperCall) : (b.remark c).Sound := by
  cases c with
  | setMark symbol m hm => exact setMark_sound hs symbol hm
  | tick symbol m hm => exact setMark_sound hs symbol hm
  | _ => exact hs

theorem remark_fields (b : PaperBackend) (c : PaperCall) : (b.remark c).wallet=b.wallet ∧
    (b.remark c).positions=b.positions ∧ (b.remark c).tape=b.tape ∧
    (b.remark c).orders=b.orders := by
  cases c <;> exact ⟨rfl,rfl,rfl,rfl⟩

/-- New marks move the equity by what they do to the open positions. -/
theorem remark_equity {b : PaperBackend} (hs : b.Sound) (c : PaperCall) :
    (b.remark c).equity=b.equity+b.positions.total fun p =>
      p.side.gain (b.mark p.symbol) ((b.remark c).mark p.symbol)*p.qty := by
  obtain ⟨hw,hp,-,-⟩ := b.remark_fields c
  rw [equity_def,equity_def,hw,hp,add_assoc,← Keyed.Table.total_add]
  congr 1
  refine Keyed.Table.total_congr fun p hin => ?_
  have hl : b.position p.symbol=some p := Keyed.Table.lookup_of_mem hin
  have hl' : (b.remark c).position p.symbol=some p := by rw [position,hp]; exact hl
  rw [unrealized_of_mark ((remark_sound hs c).held _ _ hl').2,
    unrealized_of_mark (hs.held _ _ hl).2,← p.side.gain_add p.entry (b.mark p.symbol)]
  ring

/-- Units of an entry that the call places and the account accepts. -/
def acceptedBy (b : PaperBackend) (cid : String) : PaperCall → ℚ
  | .placeEntry req _ =>
    if req.clientOrderId=cid ∧ (b.placeEntry req).1.outcome ≠ .failed then Js.value req.qty else 0
  | _ => 0

/-- Units of the resting entries that the call cancels: all of the symbol, or the one it names. -/
def withdrawnBy (b : PaperBackend) (cid : String) : PaperCall → ℚ
  | .cancelAll symbol => unitsUnder cid (b.orders.filter fun o => o.symbol=symbol)
  | .cancelOrder symbol id =>
    unitsUnder cid (b.orders.find? fun o => o.symbol=symbol ∧ o.clientOrderId=id).toList
  | _ => 0

/-- What a canceled order takes off the book. -/
theorem cancelOrder_units (b : PaperBackend) (symbol id cid : String) :
    (b.cancelOrder symbol id).2.restingUnits cid+
      unitsUnder cid (b.orders.find? fun o => o.symbol=symbol ∧ o.clientOrderId=id).toList=
        b.restingUnits cid := by
  unfold cancelOrder
  cases ho : b.orders.find? fun o => o.symbol=symbol ∧ o.clientOrderId=id with
  | none => exact add_zero _
  | some o => exact (add_comm _ _).trans (unitsUnder_erase cid (List.mem_of_find?_eq_some ho))

/-- The call fills no entry against a position of the other side, and reduces no position to dust. -/
def OneSided (b : PaperBackend) : PaperCall → Prop
  | .placeEntry req _ => b.fillsAtOnce req → ∀ p ∈ b.position req.symbol, p.side=req.direction
  | .reducePosition symbol qty _ _ =>
    ∀ p ∈ b.position symbol, p.qty ≤ Js.value qty ∨ Js.value qty<p.qty-dust
  | .tick symbol mark _ => b.Agree symbol (Js.value mark) (b.resting symbol)
  | _ => True

/-- The call makes the trades `ts` and accounts for every unit. -/
def Books (b : PaperBackend) (c : PaperCall) (ts : List PaperTrade) : Prop :=
  Moved (b.remark c) (b.perform c) ts ∧ ∀ cid, b.acceptedBy cid c+b.restingUnits cid=
    unitsFor cid ts+(b.perform c).restingUnits cid+b.withdrawnBy cid c

theorem placeEntry_books {b : PaperBackend} (hs : b.Sound) {req : EntryRequest}
    (hq : Js.positive req.qty) (h : b.OneSided (.placeEntry req hq)) :
    ∃ ts, b.Books (.placeEntry req hq) ts := by
  rcases b.placeEntry_cases req with ⟨ho,hb⟩|⟨hnow,ho,hb⟩|⟨-,ho,hb⟩
  · have hp : b.perform (.placeEntry req hq)=b := hb
    refine ⟨[],by rw [hp]; exact Moved.refl hs,fun cid => ?_⟩
    simp [acceptedBy,ho,withdrawnBy,unitsFor,hp]
  · have hp : b.perform (.placeEntry req hq)=_ := hb
    refine ⟨_,by rw [hp]; exact fill_moved _ _ _ hs (Js.value_pos hq) hnow.1 (h hnow),fun cid => ?_⟩
    have hrest : (b.perform (.placeEntry req hq)).restingUnits cid=b.restingUnits cid := by
      rw [hp,restingUnits,fill_orders _ _ _ _ (h hnow),restingUnits]
    simp [acceptedBy,ho,withdrawnBy,unitsFor,hrest]
  · have hp : b.perform (.placeEntry req hq)=_ := hb
    refine ⟨[],?_,fun cid => ?_⟩
    · rw [hp]
      refine .of_orders hs rfl rfl rfl rfl fun o hin hlim => ?_
      rcases List.mem_append.mp hin with hin|hin
      · exact hs.book o hin hlim
      · cases List.mem_singleton.mp hin
        exact ⟨rfl,Js.value_pos hq⟩
    · simp only [hp,acceptedBy,ho,withdrawnBy,unitsFor,restingUnits,unitsUnder,rest,List.map_append,
        List.map_cons,List.map_nil,List.sum_append,List.sum_cons,List.sum_nil,ne_eq,reduceCtorEq,
        not_false_eq_true,and_true,true_and]
      ring

theorem protective_books {b : PaperBackend} (hs : b.Sound) (symbol : String) (position : Direction)
    (price id : String) {type : PaperOrderType} (ht : type ≠ .limit) :
    Moved b (b.protective symbol position price id type).2 [] ∧
      ∀ cid, (b.protective symbol position price id type).2.restingUnits cid=b.restingUnits cid := by
  refine ⟨.of_orders hs rfl rfl rfl (by simp [tradesOf,protective,record]) fun o hin hlim => ?_,
    fun cid => by simp [protective,record,restingUnits,unitsUnder,ht]⟩
  rcases List.mem_append.mp hin with hin|hin
  · exact hs.book o hin hlim
  · cases List.mem_singleton.mp hin
    exact absurd hlim ht

theorem cancel_moved {b : PaperBackend} (hs : b.Sound) {os gone : List PaperOrder}
    (h : ∀ o ∈ os, o ∈ b.orders) : Moved b (finish { b with orders := os } canceledView gone) [] :=
  .of_orders hs rfl rfl rfl rfl fun o hin => hs.book o (h o hin)

theorem tick_moved {b : PaperBackend} (hs : b.Sound) {symbol m : String} (hm : Js.positive m)
    (h : b.Agree symbol (Js.value m) (b.resting symbol)) :
    ∃ ts, Moved (b.setMark symbol m) (b.tick symbol m).2 ts ∧
      ∀ cid, unitsFor cid ts+(b.tick symbol m).2.restingUnits cid=b.restingUnits cid := by
  have hs' := setMark_sound hs symbol hm
  have hmark : (b.setMark symbol m).mark symbol=Js.value m := by rw [mark_setMark,if_pos rfl]
  obtain ⟨ts,hts,hunits⟩ := fillResting_moved ((b.setMark symbol m).resting symbol) hs'
    (by rw [hmark]; exact Js.value_pos hm) (fun o ho => by
      have hlim := (List.mem_filter.mp ho).2
      simp only [decide_eq_true_eq] at hlim
      exact hlim.2)
    List.filter_sublist.subperm (by rw [hmark]; exact h)
  obtain ⟨us,hus,hunits'⟩ := trigger_moved hts.sound symbol
  refine ⟨_,hts.trans hus,fun cid => ?_⟩
  rw [unitsFor_append,add_assoc]
  exact (congrArg _ (hunits' cid)).trans (hunits cid)

theorem Books.of_moved {b b' : PaperBackend} {c : PaperCall} {ts : List PaperTrade}
    (hr : b.remark c=b) (hp : b.perform c=b')
    (hz : ∀ cid, b.acceptedBy cid c=0 ∧ b.withdrawnBy cid c=0) (hm : Moved b b' ts)
    (hu : ∀ cid, unitsFor cid ts+b'.restingUnits cid=b.restingUnits cid) : b.Books c ts := by
  subst hp
  refine ⟨by rwa [hr],fun cid => ?_⟩
  rw [(hz cid).1,(hz cid).2,hu cid,zero_add,add_zero]

/-- Every call makes its trades at the fee of each unit, and accounts for every unit of an entry. -/
theorem perform_books {b : PaperBackend} (hs : b.Sound) {c : PaperCall} (h : b.OneSided c) :
    ∃ ts, b.Books c ts := by
  have hzero : ∀ cid, unitsFor cid []+b.restingUnits cid=b.restingUnits cid := fun cid => zero_add _
  cases c with
  | setMark symbol m hm =>
    refine ⟨[],Moved.refl (remark_sound hs (.setMark symbol m hm)),fun cid => ?_⟩
    simp [acceptedBy,withdrawnBy,perform,setMark,restingUnits]
  | setLeverage symbol leverage =>
    exact ⟨[],.of_moved rfl rfl (fun _ => ⟨rfl,rfl⟩) (.of_orders hs rfl rfl rfl rfl hs.book) hzero⟩
  | placeEntry req hq => exact placeEntry_books hs hq h
  | placeStop symbol position price id =>
    obtain ⟨hm,hu⟩ := protective_books hs symbol position price id
      (show PaperOrderType.stopMarket ≠ .limit from nofun)
    exact ⟨[],.of_moved rfl rfl (fun _ => ⟨rfl,rfl⟩) hm fun cid => (zero_add _).trans (hu cid)⟩
  | placeTakeProfit symbol position price id =>
    obtain ⟨hm,hu⟩ := protective_books hs symbol position price id
      (show PaperOrderType.takeProfitMarket ≠ .limit from nofun)
    exact ⟨[],.of_moved rfl rfl (fun _ => ⟨rfl,rfl⟩) hm fun cid => (zero_add _).trans (hu cid)⟩
  | closePosition symbol id =>
    cases hp : b.position symbol with
    | none =>
      exact ⟨[],.of_moved rfl (by simp [perform,closePosition,hp]) (fun _ => ⟨rfl,rfl⟩)
        (Moved.refl hs) hzero⟩
    | some p =>
      have hb : b.perform (.closePosition symbol id)=
          (b.closeAt id false symbol (b.mark symbol) none).2 := by
        simp only [perform,closePosition,hp]
      refine ⟨_,.of_moved rfl hb (fun _ => ⟨rfl,rfl⟩) (closeAt_moved id _ false none hs hp nofun) fun cid => ?_⟩
      rw [closeAt_restingUnits hs]
      simp [unitsFor]
  | reducePosition symbol qty id hq =>
    cases hp : b.position symbol with
    | none =>
      exact ⟨[],.of_moved rfl (by simp [perform,reducePosition,hp]) (fun _ => ⟨rfl,rfl⟩)
        (Moved.refl hs) hzero⟩
    | some p =>
      have hb : b.perform (.reducePosition symbol qty id hq)=
          (b.closeAt id false symbol (b.mark symbol) (some (Js.value qty))).2 := by
        simp only [perform,reducePosition,hp]
      refine ⟨_,.of_moved rfl hb (fun _ => ⟨rfl,rfl⟩) (closeAt_moved id _ false _ hs hp ?_) fun cid => ?_⟩
      · rintro x ⟨⟩
        exact ⟨Js.value_pos hq,h p hp⟩
      · rw [closeAt_restingUnits hs]
        simp [unitsFor]
  | cancelAll symbol =>
    refine ⟨[],cancel_moved hs fun o ho => List.mem_of_mem_filter ho,fun cid => ?_⟩
    have hsplit := unitsUnder_filter cid (fun o => o.symbol=symbol) b.orders
    simp only [acceptedBy,withdrawnBy,unitsFor_nil,zero_add,restingUnits]
    rw [← hsplit,add_comm]
    rfl
  | cancelOrder symbol cid =>
    have hm : Moved b (b.cancelOrder symbol cid).2 [] := by
      unfold cancelOrder
      split
      · exact Moved.refl hs
      · exact cancel_moved hs fun o ho => List.mem_of_mem_erase ho
    refine ⟨[],hm,fun id' => ?_⟩
    simp only [acceptedBy,unitsFor_nil,zero_add]
    exact (cancelOrder_units b symbol cid id').symm
  | tick symbol m hm =>
    obtain ⟨ts,hts,hu⟩ := tick_moved hs hm h
    refine ⟨ts,hts,fun cid => ?_⟩
    have ha : b.acceptedBy cid (.tick symbol m hm)=0 := rfl
    have hw : b.withdrawnBy cid (.tick symbol m hm)=0 := rfl
    rw [ha,hw,zero_add,add_zero]
    exact (hu cid).symm

/-- The trades of a call, from the tape. -/
def newTrades (b : PaperBackend) (c : PaperCall) : List PaperTrade :=
  (tradesOf (b.perform c).tape).drop (tradesOf b.tape).length

/-! What a run of calls adds up to. -/

/-- Position times mark change, over the calls. -/
def drift (b : PaperBackend) : List PaperCall → ℚ
  | [] => 0
  | c::cs => b.driftOf c+(b.perform c).drift cs

/-- Price improvement of every trade against the mark, over the calls. -/
def edge (b : PaperBackend) : List PaperCall → ℚ
  | [] => 0
  | c::cs => (b.perform c).edgeOf (b.newTrades c)+(b.perform c).edge cs

/-- Traded notional, over the calls. -/
def turnover (b : PaperBackend) : List PaperCall → ℚ
  | [] => 0
  | c::cs => turnoverOf (b.newTrades c)+(b.perform c).turnover cs

/-- Units of accepted entries under the order id, over the calls. -/
def accepted (b : PaperBackend) (cid : String) : List PaperCall → ℚ
  | [] => 0
  | c::cs => b.acceptedBy cid c+(b.perform c).accepted cid cs

/-- Units that entries under the order id traded, over the calls. -/
def traded (b : PaperBackend) (cid : String) : List PaperCall → ℚ
  | [] => 0
  | c::cs => unitsFor cid (b.newTrades c)+(b.perform c).traded cid cs

/-- Resting units under the order id that were canceled, over the calls. -/
def withdrawn (b : PaperBackend) (cid : String) : List PaperCall → ℚ
  | [] => 0
  | c::cs => b.withdrawnBy cid c+(b.perform c).withdrawn cid cs

/-- Equity is the starting equity, the drift of the positions, the edge of the trades and one fee on
each traded unit; entries are traded, resting or withdrawn to the last unit. -/
def Conserves (start : ℚ) (calls : List PaperCall) : Prop :=
  ((fresh start).run calls).equity=start+(fresh start).drift calls+(fresh start).edge calls-
    feeRate*(fresh start).turnover calls ∧
  ∀ cid, (fresh start).accepted cid calls=(fresh start).traded cid calls+
    ((fresh start).run calls).restingUnits cid+(fresh start).withdrawn cid calls

theorem Books.newTrades {b : PaperBackend} {c : PaperCall} {ts : List PaperTrade}
    (h : b.Books c ts) : b.newTrades c=ts := by
  rw [PaperBackend.newTrades,h.1.tape,(b.remark_fields c).2.2.1,List.drop_left]

theorem run_books {calls : List PaperCall} {b : PaperBackend} (hs : b.Sound)
    (h : Throughout OneSided b calls) :
    (b.run calls).equity=b.equity+b.drift calls+b.edge calls-feeRate*b.turnover calls ∧
    ∀ cid, b.accepted cid calls+b.restingUnits cid=
      b.traded cid calls+(b.run calls).restingUnits cid+b.withdrawn cid calls := by
  induction calls generalizing b with
  | nil => exact ⟨by simp [drift,edge,turnover],fun cid => by simp [accepted,traded,withdrawn]⟩
  | cons c cs ih =>
    obtain ⟨ts,hbooks⟩ := perform_books hs h.1
    obtain ⟨hm,hu⟩ := hbooks
    obtain ⟨heq,hunits⟩ := ih hm.sound h.2
    have hts : b.newTrades c=ts := Books.newTrades ⟨hm,hu⟩
    have hmarks : ∀ s, (b.perform c).mark s=(b.remark c).mark s := mark_congr hm.marks
    have hdrift : b.driftOf c=b.positions.total fun p =>
        p.side.gain (b.mark p.symbol) ((b.remark c).mark p.symbol)*p.qty := by
      simp only [driftOf,hmarks]
    have hedge : (b.perform c).edgeOf ts=(b.remark c).edgeOf ts := by simp only [edgeOf,hmarks]
    refine ⟨?_,fun cid => ?_⟩
    · change ((b.perform c).run cs).equity=_
      rw [heq,hm.equity,remark_equity hs c,drift,edge,turnover,hts,hdrift,hedge]
      ring
    · change _=_+((b.perform c).run cs).restingUnits cid+_
      rw [accepted,traded,withdrawn,hts]
      linarith [hu cid,hunits cid]

theorem fresh_sound (start : ℚ) : (fresh start).Sound := ⟨nofun,nofun⟩

/-- Money is conserved in every run in which no entry fills against the other side. -/
theorem conserves_money (start : ℚ) (calls : List PaperCall)
    (h : Throughout OneSided (fresh start) calls) : Conserves start calls := by
  obtain ⟨heq,hunits⟩ := run_books (fresh_sound start) h
  refine ⟨?_,fun cid => ?_⟩
  · have hstart : (fresh start).equity=start := by simp [equity_def,fresh,Keyed.Table.total,Keyed.Table.empty]
    rw [heq,hstart]
  · have hnone : (fresh start).restingUnits cid=0 := rfl
    rw [← hunits cid,hnone,add_zero]

instance (b : PaperBackend) (symbol : String) (m : ℚ) (os : List PaperOrder) :
    Decidable (b.Agree symbol m os) :=
  inferInstanceAs (Decidable (∀ o ∈ os, o.reached m → (∀ p ∈ b.position symbol,
    p.side=o.positionSide) ∧ ∀ o' ∈ os, o'.reached m → o'.positionSide=o.positionSide))

instance (b : PaperBackend) : (c : PaperCall) → Decidable (b.OneSided c)
  | .placeEntry req _ => inferInstanceAs
      (Decidable (b.fillsAtOnce req → ∀ p ∈ b.position req.symbol, p.side=req.direction))
  | .reducePosition symbol qty _ _ => inferInstanceAs
      (Decidable (∀ p ∈ b.position symbol, p.qty ≤ Js.value qty ∨ Js.value qty<p.qty-dust))
  | .tick symbol mark _ => inferInstanceAs
      (Decidable (b.Agree symbol (Js.value mark) (b.resting symbol)))
  | .setMark _ _ _ | .setLeverage _ _ | .placeStop _ _ _ _ | .placeTakeProfit _ _ _ _
  | .closePosition _ _ | .cancelAll _ | .cancelOrder _ _ => .isTrue trivial

def marketEntry (direction : Direction) (qty cid : String) (h : Js.positive qty) : PaperCall :=
  .placeEntry ⟨"BTCUSDT",direction,qty,.market,none,cid⟩ h

/-- A long of two, a protective stop, a resting entry that fills on the way down, and the stop. -/
def stoppedOut : List PaperCall :=
  [.setMark "BTCUSDT" "50000" (by decide +kernel),marketEntry .long "2" "e1" (by decide +kernel),
    .placeStop "BTCUSDT" .long "48000" "s1",
    .placeEntry ⟨"BTCUSDT",.long,"1",.limit,some "49000","e2"⟩ (by decide +kernel),
    .tick "BTCUSDT" "48500" (by decide +kernel),.tick "BTCUSDT" "47900" (by decide +kernel)]

theorem stoppedOut_conserves : Conserves 10000 stoppedOut :=
  conserves_money 10000 stoppedOut (by decide +kernel)

/-- A short of three against a long of two: the third unit is lost, and fees are charged on five. -/
def oversizedShort : List PaperCall :=
  [.setMark "BTCUSDT" "50000" (by decide +kernel),marketEntry .long "2" "e1" (by decide +kernel),
    marketEntry .short "3" "e2" (by decide +kernel)]

theorem oversizedShort_loses : ¬Conserves 10000 oversizedShort := by
  have hmoney : ¬((fresh 10000).run oversizedShort).equity=10000+(fresh 10000).drift oversizedShort+
      (fresh 10000).edge oversizedShort-feeRate*(fresh 10000).turnover oversizedShort := by
    decide +kernel
  exact fun h => hmoney h.1

end PaperBackend
end TradeGate
