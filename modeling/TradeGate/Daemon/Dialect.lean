import Mathlib
import TradeGate.Model.Orders

/-! What the exchange reads of an order: its parameters, each once, as they were asked for, under a signature of
all that stands before it. -/
namespace TradeGate.Futures

/-! What is refused. -/
section
variable [Crates] {o : NewOrderRequest}

/-- A shape the exchange takes. -/
structure NewOrderRequest.Sound (o : NewOrderRequest) : Prop where
  oneDialect : o.positionSide=some .long ∨ o.positionSide=some .short → o.reduceOnly ≠ some true
  closes : o.closePosition=some true ↔ o.quantity=none
  stop : o.orderType.needsStopPrice=true → o.stopPrice.isSome
  price : o.orderType.needsPrice=true → o.price.isSome
  id : ∀ id ∈ o.newClientOrderId, OrderId.validClientOrderId id=true

theorem refusal_eq_none : o.refusal=none ↔ o.Sound := by
  constructor
  · intro h
    unfold NewOrderRequest.refusal at h
    split_ifs at h with hdialect hboth hneither hstop hprice
    refine ⟨fun hside hreduce => hdialect ⟨hside,hreduce⟩,⟨fun hclose => ?_,fun hnone => ?_⟩,fun hneeds => ?_,
      fun hneeds => ?_,fun id hid => ?_⟩
    · exact Option.not_isSome_iff_eq_none.mp fun hsome => hboth ⟨hclose,hsome⟩
    · exact not_not.mp fun hclose => hneither ⟨hclose,hnone⟩
    · exact Option.isSome_iff_ne_none.mpr fun hnone => hstop ⟨hneeds,hnone⟩
    · exact Option.isSome_iff_ne_none.mpr fun hnone => hprice ⟨hneeds,hnone⟩
    · rw [Option.map_eq_none_iff,Option.filter_eq_none_iff] at h
      simpa using h id hid
  · intro h
    unfold NewOrderRequest.refusal
    rw [if_neg fun hd => h.oneDialect hd.1 hd.2,if_neg fun hb => Option.isSome_iff_ne_none.mp hb.2 (h.closes.mp hb.1),
      if_neg fun hn => hn.1 (h.closes.mpr hn.2),if_neg fun hs => Option.isSome_iff_ne_none.mp (h.stop hs.1) hs.2,
      if_neg fun hp => Option.isSome_iff_ne_none.mp (h.price hp.1) hp.2,Option.map_eq_none_iff,
      Option.filter_eq_none_iff]
    intro id hid
    simp [h.id id hid]

/-- What is refused is refused here. -/
theorem refusal_kind {e : BinanceError} (h : o.refusal=some e) : e.kind=.localReject := by
  unfold NewOrderRequest.refusal at h
  split_ifs at h <;> try (cases h; rfl)
  obtain ⟨id,-,rfl⟩ := Option.map_eq_some_iff.mp h
  rfl

theorem toParams_eq_ok {params : Params} : o.toParams=.ok params ↔ o.Sound ∧ params=o.params := by
  rw [← refusal_eq_none]
  unfold NewOrderRequest.toParams
  cases o.refusal with
  | none => simp [eq_comm]
  | some e => simp

end

/-! The line. -/

theorem quotePlain_plain : Forms.Plain quotePlain where
  ascii c h := by
    simp only [quotePlain,Char.isAlphanum,Char.isAlpha,Char.isUpper,Char.isLower,Char.isDigit,Bool.or_eq_true,
      Bool.and_eq_true,decide_eq_true_eq,UInt32.le_iff_toNat_le,ge_iff_le,List.mem_cons,List.not_mem_nil,or_false] at h
    rcases h with (h | h) | h
    · change 65 ≤ c.toNat ∧ c.toNat ≤ 90 ∨ 97 ≤ c.toNat ∧ c.toNat ≤ 122 at h
      omega
    · change 48 ≤ c.toNat ∧ c.toNat ≤ 57 at h
      omega
    · rcases h with rfl | rfl | rfl | rfl <;> decide
  marks c hc := by
    simp only [List.mem_cons,List.not_mem_nil,or_false] at hc
    rcases hc with rfl | rfl | rfl | rfl <;> decide

theorem quotePlain_hexByte {b : UInt8} : ∀ c ∈ hexByte b, quotePlain c := by
  have hall : ∀ n<16, quotePlain (Nat.digitChar n)=true := by decide
  have hb := b.toNat_lt
  intro c hc
  simp only [hexByte,List.mem_cons,List.not_mem_nil,or_false] at hc
  rcases hc with rfl | rfl
  · exact hall _ (by omega)
  · exact hall _ (by omega)

def chars (params : Params) : List (List Char × List Char) := params.map fun p => (p.1.toList,p.2.toList)

theorem parseForm_chars {text : String} {params : Params} (h : text.toList=Forms.write quotePlain (chars params)) :
    parseForm text=params := by
  rw [parseForm,h,Forms.read_write quotePlain_plain,chars,List.map_map]
  refine List.map_congr_left (g := id) (fun p _ => ?_) |>.trans (List.map_id _)
  simp

theorem parseForm_urlencode (params : Params) : parseForm (urlencode params)=params :=
  parseForm_chars (String.toList_ofList ..)

section
variable [Crates] {r : BinanceRest} {params : Params} {t : ℤ} {body : String}

theorem signed_toList (hne : params ≠ []) (secret : String) :
    (urlencode params ++ "&signature=" ++ signPayload secret (urlencode params)).toList =
      Forms.write quotePlain (chars (params++[("signature",signPayload secret (urlencode params))])) := by
  have hsig : ∀ c ∈ (signPayload secret (urlencode params)).toList, quotePlain c=true := by
    intro c hc
    rw [signPayload,String.toList_ofList] at hc
    obtain ⟨b,-,hb⟩ := List.mem_flatMap.mp hc
    exact quotePlain_hexByte c hb
  have hkey : ∀ c ∈ "signature".toList, quotePlain c=true := List.all_eq_true.mp (by decide)
  have hchars : chars params ≠ [] := by simpa [chars] using hne
  have happend : chars (params++[("signature",signPayload secret (urlencode params))]) =
      chars params++[("signature".toList,(signPayload secret (urlencode params)).toList)] := List.map_append
  rw [happend,Forms.write_append _ _ hchars,Forms.pair,Forms.escape_of_plain quotePlain_plain hkey,
    Forms.escape_of_plain quotePlain_plain hsig]
  simp [urlencode,chars]

/-- What is signed reads back, and the signature stands last. -/
theorem signedQueryAt_read (h : r.signedQueryAt params t=.ok body) : ∃ payload,
    body=payload ++ "&signature=" ++ signPayload r.secret payload ∧
    parseForm payload=params++[("recvWindow",toString r.recvWindow),("timestamp",toString t)] ∧
    parseForm body=parseForm payload++[("signature",signPayload r.secret payload)] := by
  unfold BinanceRest.signedQueryAt at h
  split_ifs at h
  cases h
  refine ⟨_,rfl,parseForm_urlencode _,?_⟩
  rw [parseForm_urlencode]
  exact parseForm_chars (signed_toList (by simp) r.secret)

theorem signedQueryAt_isOk : (∃ body, r.signedQueryAt params t=.ok body) ↔ r.hasCredentials=true := by
  unfold BinanceRest.signedQueryAt
  split_ifs with h
  · simp [h]
  · simp [h]

end

/-! The order. -/

/-- An order as the exchange reads it. -/
structure Placed where
  symbol : String
  side : OrderSide
  orderType : OrderType
  quantity : Option String
  price : Option String
  stopPrice : Option String
  timeInForce : Option TimeInForce
  reduceOnly : Bool
  closePosition : Bool
  positionSide : Option PositionSide
  workingType : Option WorkingType
  clientOrderId : Option String
  respType : RespType
deriving DecidableEq

def NewOrderRequest.placed (o : NewOrderRequest) : Placed where
  symbol := exchangeSymbol o.symbol
  side := o.side
  orderType := o.orderType
  quantity := o.quantity
  price := o.price
  stopPrice := o.stopPrice
  timeInForce := o.timeInForce
  reduceOnly := o.reduceOnly=some true
  closePosition := o.closePosition=some true
  positionSide := o.positionSide
  workingType := o.workingType
  clientOrderId := o.newClientOrderId
  respType := o.newOrderRespType.getD .result

/-- The one of a list that has the name. -/
def named {α : Type} (all : List α) (asStr : α → String) (name : String) : Option α := all.find? fun a => asStr a=name

/-- A parameter that may be missing, but not have an unknown name. -/
def optional {α : Type} (read : String → Option α) : Option String → Option (Option α)
  | none => some none
  | some s => (read s).map some

/-- What the parameters say of the order, if each name in them is known. -/
def Placed.ofParams (ps : Params) : Option Placed := do
  let symbol ← ps.lookup "symbol"
  let side ← (ps.lookup "side").bind (named [.buy,.sell] OrderSide.asStr)
  let orderType ← (ps.lookup "type").bind
    (named [.market,.limit,.stopMarket,.takeProfitMarket,.stop,.takeProfit,.trailingStopMarket] OrderType.asStr)
  let timeInForce ← optional (named [.gtc,.ioc,.fok,.gtx] TimeInForce.asStr) (ps.lookup "timeInForce")
  let positionSide ← optional (named [.both,.long,.short] PositionSide.asStr) (ps.lookup "positionSide")
  let workingType ← optional (named [.markPrice,.contractPrice] WorkingType.asStr) (ps.lookup "workingType")
  let respType ← (ps.lookup "newOrderRespType").bind (named [.ack,.result] RespType.asStr)
  return ⟨symbol,side,orderType,ps.lookup "quantity",ps.lookup "price",ps.lookup "stopPrice",timeInForce,
    ps.lookup "reduceOnly"=some "true",ps.lookup "closePosition"=some "true",positionSide,workingType,
    ps.lookup "newClientOrderId",respType⟩

section
variable {o : NewOrderRequest} {key k : String} {v : Option String}

theorem lookup_param : (param key v).lookup k=if k=key then v else none := by
  cases v with
  | none => simp [param]
  | some s =>
    by_cases h : k=key
    · simp [param,h]
    · simp [param,h,beq_eq_false_iff_ne.mpr h]

theorem lookup_flag {b : Option Bool} : (flag key b).lookup k=if k=key ∧ b=some true then some "true" else none := by
  unfold flag
  by_cases h : k=key
  · split_ifs <;> simp_all
  · split_ifs <;> simp_all [beq_eq_false_iff_ne.mpr h]

/-- The keys of an order, in the order they are sent. -/
def orderKeys : List String := ["symbol","side","type","quantity","price","stopPrice","timeInForce","reduceOnly",
  "closePosition","positionSide","workingType","newClientOrderId","newOrderRespType"]

theorem keys_param : ((param key v).map Prod.fst).Sublist [key] := by
  cases v with
  | none => exact List.nil_sublist _
  | some s => exact List.Sublist.refl _

theorem keys_flag {b : Option Bool} : ((flag key b).map Prod.fst).Sublist [key] := by
  unfold flag
  split
  · exact List.Sublist.refl _
  · exact List.nil_sublist _

theorem keys_params (o : NewOrderRequest) : (o.params.map Prod.fst).Sublist orderKeys := by
  have hfixed : (([("symbol",exchangeSymbol o.symbol),("side",o.side.asStr),("type",o.orderType.asStr)] : Params).map
      Prod.fst).Sublist ["symbol","side","type"] := List.Sublist.refl _
  simp only [NewOrderRequest.params,List.map_append]
  exact ((((((((((hfixed.append keys_param).append keys_param).append keys_param).append keys_param).append
    keys_flag).append keys_flag).append keys_param).append keys_param).append keys_param).append
    (List.Sublist.refl ["newOrderRespType"]))

/-- The parameters of an order say what the order says, whatever comes behind them. -/
theorem ofParams_params (o : NewOrderRequest) (rest : Params)
    (hrest : ∀ k ∈ orderKeys, rest.lookup k=none) : Placed.ofParams (o.params++rest)=some o.placed := by
  have hside : named [.buy,.sell] OrderSide.asStr o.side.asStr=some o.side := by cases o.side <;> rfl
  have htype : named [.market,.limit,.stopMarket,.takeProfitMarket,.stop,.takeProfit,.trailingStopMarket]
      OrderType.asStr o.orderType.asStr=some o.orderType := by cases o.orderType <;> rfl
  have htif : optional (named [.gtc,.ioc,.fok,.gtx] TimeInForce.asStr) (o.timeInForce.map TimeInForce.asStr)=
      some o.timeInForce := by
    rcases o.timeInForce with _ | tif
    · rfl
    · cases tif <;> rfl
  have hpos : optional (named [.both,.long,.short] PositionSide.asStr) (o.positionSide.map PositionSide.asStr)=
      some o.positionSide := by
    rcases o.positionSide with _ | side
    · rfl
    · cases side <;> rfl
  have hworking : optional (named [.markPrice,.contractPrice] WorkingType.asStr)
      (o.workingType.map WorkingType.asStr)=some o.workingType := by
    rcases o.workingType with _ | working
    · rfl
    · cases working <;> rfl
  have hresp : named [.ack,.result] RespType.asStr (o.newOrderRespType.getD .result).asStr=
      some (o.newOrderRespType.getD .result) := by
    cases o.newOrderRespType.getD .result <;> rfl
  simp only [orderKeys,List.forall_mem_cons] at hrest
  obtain ⟨-,-,-,h₄,h₅,h₆,h₇,h₈,h₉,h₁₀,h₁₁,h₁₂,-,-⟩ := hrest
  simp [Placed.ofParams,NewOrderRequest.params,NewOrderRequest.placed,List.lookup_append,lookup_param,lookup_flag,
    List.lookup_cons,h₄,h₅,h₆,h₇,h₈,h₉,h₁₀,h₁₁,h₁₂,hside,htype,htif,hpos,hworking,hresp]

theorem lookup_stamped (key recvWindow timestamp signature : String) (hkey : key ∈ orderKeys) :
    ([("recvWindow",recvWindow),("timestamp",timestamp),("signature",signature)] : Params).lookup key=none := by
  have hne : ∀ key ∈ orderKeys, key ≠ "recvWindow" ∧ key ≠ "timestamp" ∧ key ≠ "signature" := by decide
  obtain ⟨hr,ht,hs⟩ := hne key hkey
  simp [List.lookup_cons,beq_eq_false_iff_ne.mpr hr,beq_eq_false_iff_ne.mpr ht,beq_eq_false_iff_ne.mpr hs]

end

end TradeGate.Futures
