import Mathlib.Data.List.Range
import TradeGate.Daemon.Decimals
import TradeGate.Daemon.Dialect
import TradeGate.Js.Digits

/-! Closing what a symbol holds: one order for each row of a position, which closes that row and no other. -/
namespace TradeGate.Futures
open Js

/-! Amounts. -/
section
variable {x q : ℚ} {key : String} {row rows : Value} {leg : String × Js.Num}

/-- A double with at most twelve decimals reads back from its text. -/
theorem parseF64_decimalText_exact (hx : Double.round x=.fin x) (h0 : x ≠ 0)
    (hd : decimalsOf (Double.shortest x) ≤ 12) : ExecCore.parseF64 (ExecCore.decimalText (.fin x))=some (.fin x) := by
  obtain ⟨j,hj⟩ := Double.exists_den_shortest hx
  obtain ⟨n,hn⟩ := Double.intCast_of_den_dvd (Double.den_dvd_decimalsOf hj)
  obtain ⟨cs,htext,hsigned,hnum⟩ := ExecCore.toFixed_signed hn
  unfold ExecCore.decimalText
  dsimp only
  rw [if_neg h0,if_pos hd,htext,ExecCore.parseF64_signed hsigned,hnum,Option.map_some,Js.round_shortest hx]

theorem round_of_f64Of {v : Value} (h : ExecCore.f64Of v=some (.fin q)) : Double.round q=.fin q := by
  cases v with
  | num x => exact ExecCore.round_of_asF64 (Option.some.inj h)
  | str text =>
    change ExecCore.parseF64 text=some (.fin q) at h
    unfold ExecCore.parseF64 at h
    dsimp only at h
    split_ifs at h
    · cases h
    · cases h
    · obtain ⟨y,-,hy⟩ := Option.map_eq_some_iff.mp h
      exact Double.round_of_round hy
  | null => cases h
  | bool b => cases h
  | arr xs => cases h
  | obj fields => cases h

theorem round_abs (h : Double.round q=.fin q) : Double.round |q|=.fin |q| := by
  rcases abs_cases q with ⟨hq,-⟩ | ⟨hq,-⟩
  · rw [hq,h]
  · rw [hq]
    exact Js.round_neg h

/-- A leg holds something, and what is no number aside, it is a double. -/
theorem amount_of_legOf (h : legOf key row=some leg) : leg.2 ≠ .fin 0 ∧ ∀ q, leg.2=.fin q → Double.round q=.fin q := by
  have hread : ∀ q, ((AccountStream.get row "positionAmt").bind ExecCore.f64Of).getD (.fin 0)=.fin q →
      Double.round q=.fin q := by
    intro q hq
    cases hv : (AccountStream.get row "positionAmt").bind ExecCore.f64Of with
    | none =>
      rw [hv,Option.getD_none] at hq
      cases hq
      decide +kernel
    | some x =>
      rw [hv,Option.getD_some] at hq
      obtain ⟨v,-,hv⟩ := Option.bind_eq_some_iff.mp hv
      exact round_of_f64Of (hq ▸ hv)
  unfold legOf at h
  split at h
  · split_ifs at h with hkey
    dsimp only at h
    split_ifs at h with hzero
    split at h
    · cases h
      exact ⟨hzero,hread⟩
    · cases h
      exact ⟨hzero,hread⟩
  · cases h

theorem amount_of_mem (h : leg ∈ legs key rows) : leg.2 ≠ .fin 0 ∧ ∀ q, leg.2=.fin q → Double.round q=.fin q := by
  unfold legs at h
  split at h
  · obtain ⟨row,-,hrow⟩ := List.mem_filterMap.mp h
    exact amount_of_legOf hrow
  · cases h

end

/-! What an order does. -/

/-- The row that a leg is. -/
def rowOf (side : String) : PositionSide := if side="LONG" then .long else if side="SHORT" then .short else .both

/-- What a symbol holds, by its rows. -/
abbrev Holdings := PositionSide → ℚ

def Placed.row (p : Placed) : PositionSide := p.positionSide.getD .both

/-- The quantity, as the exchange reads it. -/
def Placed.qty (p : Placed) : Option ℚ :=
  match p.quantity.bind ExecCore.parseF64 with
  | some (.fin q) => some q
  | _ => none

/-- An amount of the order is filled: the row it is about moves. -/
def Placed.fill (p : Placed) (amount : ℚ) (h : Holdings) : Holdings :=
  Function.update h p.row (h p.row+if p.side=.buy then amount else -amount)

/-- An order may fill in part. -/
def Partly (p : Placed) (amount : ℚ) : Prop := ∃ q, p.qty=some q ∧ 0 ≤ amount ∧ amount ≤ q

def Fully (p : Placed) (amount : ℚ) : Prop := p.qty=some amount

/-- The orders fill one after the other. -/
def fillAll : List Placed → List ℚ → Holdings → Holdings
  | p::ps, amount::amounts, h => fillAll ps amounts (p.fill amount h)
  | _, _, h => h

@[simp] theorem fillAll_cons (p : Placed) (ps : List Placed) (amount : ℚ) (amounts : List ℚ) (h : Holdings) :
    fillAll (p::ps) (amount::amounts) h=fillAll ps amounts (p.fill amount h) := rfl

/-- The orders for the legs, numbered from `i`. -/
def legOrders (request : ClosePositionParams) : ℕ → List (String × Js.Num) → List NewOrderRequest
  | _, [] => []
  | i, leg::rest => legOrder request i leg::legOrders request (i+1) rest

/-- The leg is the row, and its amount is written out in full. -/
def Written (h : Holdings) (leg : String × Js.Num) : Prop :=
  leg.2=.fin (h (rowOf leg.1)) ∧ decimalsOf (Double.shortest |h (rowOf leg.1)|) ≤ 12

section
variable {request : ClosePositionParams} {i : ℕ} {leg : String × Js.Num} {ls : List (String × Js.Num)} {h : Holdings}
  {key : String} {rows : Value}

theorem row_legOrder (request : ClosePositionParams) (i : ℕ) (leg : String × Js.Num) :
    (legOrder request i leg).placed.row=rowOf leg.1 := by
  unfold Placed.row rowOf
  simp only [legOrder,NewOrderRequest.placed]
  split_ifs <;> rfl

theorem qty_legOrder (request : ClosePositionParams) (i : ℕ) (hmem : leg ∈ legs key rows) (hw : Written h leg) :
    (legOrder request i leg).placed.qty=some |h (rowOf leg.1)| := by
  obtain ⟨hne,hround⟩ := amount_of_mem hmem
  have hround := round_abs (hround _ hw.1)
  have h0 : |h (rowOf leg.1)| ≠ 0 := fun hz => hne (by rw [hw.1,abs_eq_zero.mp hz])
  unfold Placed.qty
  simp only [legOrder,NewOrderRequest.placed,hw.1,absNum,Option.bind_some,
    parseF64_decimalText_exact hround h0 hw.2]

/-- An order takes a part of its leg away. -/
theorem fill_legOrder (hmem : leg ∈ legs key rows) (hw : Written h leg) {amount : ℚ}
    (hf : Partly (legOrder request i leg).placed amount) : ∃ θ, 0 ≤ θ ∧ θ ≤ 1 ∧
      (Fully (legOrder request i leg).placed amount → θ=0) ∧
      (legOrder request i leg).placed.fill amount h=Function.update h (rowOf leg.1) (θ*h (rowOf leg.1)) := by
  obtain ⟨q,hq,hlo,hhi⟩ := hf
  have hqty := qty_legOrder request i hmem hw
  rw [hqty] at hq
  cases hq
  have hne : h (rowOf leg.1) ≠ 0 := fun hz => (amount_of_mem hmem).1 (by rw [hw.1,hz])
  have hpos := abs_pos.mpr hne
  refine ⟨1-amount/|h (rowOf leg.1)|,?_,?_,?_,?_⟩
  · rw [sub_nonneg]
    exact (div_le_one hpos).mpr hhi
  · exact sub_le_self _ (div_nonneg hlo hpos.le)
  · intro hfull
    rw [Fully,hqty] at hfull
    rw [← Option.some.inj hfull,div_self hpos.ne',sub_self]
  · unfold Placed.fill
    rw [row_legOrder]
    congr 1
    simp only [legOrder,NewOrderRequest.placed,hw.1,positive]
    rcases lt_or_gt_of_ne hne with hneg | hp
    · have hno : ¬0<h (rowOf leg.1) := not_lt.mpr hneg.le
      simp only [hno,decide_false,Bool.false_eq_true,if_false,if_true,abs_of_neg hneg]
      field_simp
      ring
    · simp only [hp,decide_true,if_true,abs_of_pos hp,reduceCtorEq,if_false]
      field_simp
      ring

theorem partly_of_fully (hmem : leg ∈ legs key rows) (hw : Written h leg) {amount : ℚ}
    (hf : Fully (legOrder request i leg).placed amount) : Partly (legOrder request i leg).placed amount := by
  have hqty := qty_legOrder request i hmem hw
  rw [Fully,hqty] at hf
  cases hf
  exact ⟨_,hqty,abs_nonneg _,le_rfl⟩

/-- The orders move the rows of their legs, each toward nothing, and no other row. -/
theorem fillAll_legOrders (hmem : ∀ leg ∈ ls, leg ∈ legs key rows) (hw : ∀ leg ∈ ls, Written h leg)
    (hrows : (ls.map fun leg => rowOf leg.1).Nodup) {amounts : List ℚ}
    (hf : List.Forall₂ Partly ((legOrders request i ls).map NewOrderRequest.placed) amounts) (side : PositionSide) :
    (side ∉ ls.map (fun leg => rowOf leg.1) →
      fillAll ((legOrders request i ls).map NewOrderRequest.placed) amounts h side=h side) ∧
    (∃ θ, 0 ≤ θ ∧ θ ≤ 1 ∧ fillAll ((legOrders request i ls).map NewOrderRequest.placed) amounts h side=θ*h side) ∧
    (List.Forall₂ Fully ((legOrders request i ls).map NewOrderRequest.placed) amounts →
      side ∈ ls.map (fun leg => rowOf leg.1) →
      fillAll ((legOrders request i ls).map NewOrderRequest.placed) amounts h side=0) := by
  induction ls generalizing i h amounts with
  | nil =>
    cases hf
    exact ⟨fun _ => rfl,⟨1,by norm_num,le_rfl,(one_mul _).symm⟩,fun _ hs => nomatch hs⟩
  | cons leg ls ih =>
    simp only [legOrders,List.map_cons] at hf ⊢
    cases hf with
    | cons hp hrest =>
    rename_i amount amounts
    rw [List.forall_mem_cons] at hmem hw
    rw [List.map_cons,List.nodup_cons] at hrows
    obtain ⟨θ,hlo,hhi,hfull,hfill⟩ := fill_legOrder hmem.1 hw.1 hp
    have hkeep : ∀ s, s ≠ rowOf leg.1 → (legOrder request i leg).placed.fill amount h s=h s := fun s hs => by
      rw [hfill,Function.update_of_ne hs]
    have hmove : (legOrder request i leg).placed.fill amount h (rowOf leg.1)=θ*h (rowOf leg.1) := by
      rw [hfill,Function.update_self]
    have hw' : ∀ l ∈ ls, Written ((legOrder request i leg).placed.fill amount h) l := by
      intro l hl
      have hne : rowOf l.1 ≠ rowOf leg.1 := fun he => hrows.1 (he ▸ List.mem_map_of_mem hl)
      rw [Written,hkeep _ hne]
      exact hw.2 l hl
    obtain ⟨hout,⟨η,hηlo,hηhi,hη⟩,hzero⟩ := ih hmem.2 hw' hrows.2 hrest
    rw [fillAll_cons]
    refine ⟨?_,?_,?_⟩
    · intro hside
      rw [List.mem_cons,not_or] at hside
      rw [hout hside.2,hkeep _ hside.1]
    · by_cases hs : side=rowOf leg.1
      · subst hs
        exact ⟨θ,hlo,hhi,(hout hrows.1).trans hmove⟩
      · exact ⟨η,hηlo,hηhi,by rw [hη,hkeep _ hs]⟩
    · intro hall hside
      cases hall with
      | cons hfirst hall =>
      rw [List.mem_cons] at hside
      rcases hside with rfl | hside
      · rw [hout hrows.1,hmove,hfull hfirst,zero_mul]
      · exact hzero hall hside

theorem forall₂_partly (hmem : ∀ leg ∈ ls, leg ∈ legs key rows) (hw : ∀ leg ∈ ls, Written h leg) {amounts : List ℚ}
    (hf : List.Forall₂ Fully ((legOrders request i ls).map NewOrderRequest.placed) amounts) :
    List.Forall₂ Partly ((legOrders request i ls).map NewOrderRequest.placed) amounts := by
  induction ls generalizing i amounts with
  | nil =>
    cases hf
    exact .nil
  | cons leg ls ih =>
    simp only [legOrders,List.map_cons] at hf ⊢
    rw [List.forall_mem_cons] at hmem hw
    cases hf with
    | cons hp hrest => exact .cons (partly_of_fully hmem.1 hw.1 hp) (ih hmem.2 hw.2 hrest)

/-! The loop. -/

/-- The number of a leg as its order's id shows it. -/
def idOf (request : ClosePositionParams) (i : ℕ) : String :=
  if i=0 then request.clientOrderId else request.clientOrderId ++ toString i

theorem idOf_injective (request : ClosePositionParams) : Function.Injective (idOf request) := by
  have hne : ∀ i : ℕ, request.clientOrderId ++ toString i ≠ request.clientOrderId := by
    intro i he
    have hlen := congrArg (fun s : String => s.toList.length) he
    simp only [String.toList_append,List.length_append] at hlen
    have hnil : (toString i).toList=[] := List.length_eq_zero_iff.mp (by omega)
    rw [natText_toList] at hnil
    exact Nat.toDigits_ne_nil hnil
  intro i j h
  unfold idOf at h
  split_ifs at h with hi hj hj
  · rw [hi,hj]
  · exact absurd h.symm (hne j)
  · exact absurd h (hne i)
  · apply natText_injective
    have hlist := congrArg String.toList h
    rw [String.toList_append,String.toList_append,List.append_cancel_left_eq] at hlist
    exact String.toList_injective hlist

theorem ids_legOrders (request : ClosePositionParams) (i : ℕ) (ls : List (String × Js.Num)) :
    (legOrders request i ls).map NewOrderRequest.newClientOrderId =
      (List.range' i ls.length).map fun j => some (idOf request j) := by
  induction ls generalizing i with
  | nil => rfl
  | cons leg ls ih =>
    rw [legOrders,List.map_cons,ih,List.length_cons,List.range'_succ,List.map_cons]
    rfl

variable [Crates] {answers : ℕ → Except BinanceError Value}

/-- How the loop ended. -/
inductive Ended (answers : ℕ → Except BinanceError Value) (ls : List (String × Js.Num)) (i posted : ℕ) :
    Except BinanceError (List Value) → Prop
  /-- Each order was answered. -/
  | all {receipts : List Value} : posted=ls.length → receipts.length=ls.length →
      (∀ j v, receipts[j]?=some v → answers (i+j)=.ok v) → Ended answers ls i posted (.ok receipts)
  /-- The last order that was posted came back with an error. -/
  | failed {e : BinanceError} : 0<posted → posted ≤ ls.length → (∀ j, j+1<posted → ∃ v, answers (i+j)=.ok v) →
      answers (i+(posted-1))=.error e → Ended answers ls i posted (.error e)
  /-- The next order was refused here. -/
  | refused {e : BinanceError} : posted<ls.length → (∀ j<posted, ∃ v, answers (i+j)=.ok v) → e.kind=.localReject →
      Ended answers ls i posted (.error e)

theorem closeLegs_posted (answers : ℕ → Except BinanceError Value) (request : ClosePositionParams) (i : ℕ) (ls : List (String × Js.Num)) :
    ∃ n, (closeLegs answers request i ls).1=((legOrders request i ls).take n).map NewOrderRequest.params ∧
      Ended answers ls i n (closeLegs answers request i ls).2 := by
  induction ls generalizing i with
  | nil => exact ⟨0,rfl,.all rfl rfl fun j v hv => by simp at hv⟩
  | cons leg ls ih =>
    rw [legOrders]
    unfold closeLegs
    split
    · next e he =>
      refine ⟨0,rfl,.refused (Nat.succ_pos _) (fun j hj => absurd hj (Nat.not_lt_zero j)) ?_⟩
      unfold NewOrderRequest.toParams at he
      split at he
      · next hr =>
        cases he
        exact refusal_kind hr
      · cases he
    · next params hp =>
      obtain ⟨-,rfl⟩ := toParams_eq_ok.mp hp
      split
      · next e he => exact ⟨1,by simp,.failed one_pos (by simp) (fun j hj => absurd hj (by omega)) (by simpa using he)⟩
      · next receipt hreceipt =>
        obtain ⟨n,hn,hend⟩ := ih (i+1)
        rcases hrec : closeLegs answers request (i+1) ls with ⟨posted,result⟩
        rw [hrec] at hn hend
        refine ⟨n+1,congrArg (List.cons _) hn,?_⟩
        have hbefore : ∀ m, (∀ j < m, ∃ v, answers (i+1+j)=.ok v) → ∀ j < m+1, ∃ v, answers (i+j)=.ok v := by
          intro m hm j hj
          cases j with
          | zero => exact ⟨receipt,hreceipt⟩
          | succ j =>
            obtain ⟨v,hv⟩ := hm j (by omega)
            exact ⟨v,by rwa [Nat.add_right_comm] at hv⟩
        cases hend with
        | all hlen hreceipts hanswers =>
          refine .all (by rw [hlen,List.length_cons]) (by simp [hreceipts]) fun j v hv => ?_
          cases j with
          | zero =>
            cases hv
            exact hreceipt
          | succ j =>
            have := hanswers j v hv
            rwa [Nat.add_right_comm] at this
        | failed hpos hle hok herr =>
          refine .failed (Nat.succ_pos n) (by simpa using hle) (fun j hj => hbefore (n-1) (fun j hj => hok j (by omega)) j
            (by omega)) ?_
          rw [show i+(n+1-1)=i+1+(n-1) by omega]
          exact herr
        | refused hlt hok hkind => exact .refused (by simpa using hlt) (hbefore n hok) hkind

omit [Crates] in
theorem take_legOrders (request : ClosePositionParams) (i n : ℕ) (ls : List (String × Js.Num)) :
    (legOrders request i ls).take n=legOrders request i (ls.take n) := by
  induction ls generalizing i n with
  | nil => simp [legOrders]
  | cons leg ls ih =>
    cases n with
    | zero => rfl
    | succ n => rw [legOrders,List.take_succ_cons,List.take_succ_cons,legOrders,ih]

omit [Crates] in
theorem length_legOrders (request : ClosePositionParams) (i : ℕ) (ls : List (String × Js.Num)) :
    (legOrders request i ls).length=ls.length := by
  induction ls generalizing i with
  | nil => rfl
  | cons leg ls ih => rw [legOrders,List.length_cons,List.length_cons,ih]

omit [Crates] in
theorem rows_legOrders (request : ClosePositionParams) (i : ℕ) (ls : List (String × Js.Num)) :
    ((legOrders request i ls).map NewOrderRequest.placed).map Placed.row=ls.map fun leg => rowOf leg.1 := by
  induction ls generalizing i with
  | nil => rfl
  | cons leg ls ih => simp only [legOrders,List.map_cons,ih,row_legOrder]

omit [Crates] in
/-- A one-way row is closed by an order that only reduces, a row of two ways by one that names its side. -/
theorem dialect_legOrders {p : Placed} (hp : p ∈ (legOrders request i ls).map NewOrderRequest.placed) :
    p.orderType=.market ∧ (p.reduceOnly=true ↔ p.row=.both) := by
  induction ls generalizing i with
  | nil => cases hp
  | cons leg ls ih =>
    rw [legOrders,List.map_cons,List.mem_cons] at hp
    rcases hp with rfl | hp
    · refine ⟨rfl,?_⟩
      simp only [Placed.row,legOrder,NewOrderRequest.placed]
      split_ifs <;> simp_all
    · exact ih hp

end

@[reducible] def noCrates : Crates := ⟨fun _ _ => [],id⟩

def hedgedRows : Value := .arr [
  .obj [("symbol",.str "BTCUSDT"),("positionAmt",.str "0.5"),("positionSide",.str "LONG")],
  .obj [("symbol",.str "ETHUSDT"),("positionAmt",.str "3"),("positionSide",.str "LONG")],
  .obj [("symbol",.str "BTCUSDT"),("positionAmt",.str "-0.25"),("positionSide",.str "SHORT")]]

def hedgedHoldings : Holdings
  | .both => 0
  | .long => 1/2
  | .short => -1/4

end TradeGate.Futures
