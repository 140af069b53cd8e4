import TradeGate.Model.Threads
import TradeGate.Number.Double

/-! Client order ids: the four places that make them, and the three that tell whose an order is. -/
namespace TradeGate.OrderId

def localPrefix : String := "tg-"

def maxLen : ℕ := 36

/-- The id starts with the prefix of this repository. -/
def prefixed (id : String) : Bool := localPrefix.toList.isPrefixOf id.toList

def isLowerHex (c : Char) : Bool := c.isDigit || ('a' ≤ c && c ≤ 'f')

/-- `is_ascii_hexdigit`. -/
def isHex (c : Char) : Bool := isLowerHex c || ('A' ≤ c && c ≤ 'F')

inductive OrderOrigin | localOrder | foreign | unknown
deriving DecidableEq

/-! The contracts, in Rust. -/

def uuidChar (i : ℕ) (c : Char) : Bool :=
  if i=8 ∨ i=13 ∨ i=18 ∨ i=23 then c = '-'
  else if i=14 then '1' ≤ c && c ≤ '8'
  else if i=19 then c ∈ ['8', '9', 'a', 'b']
  else isLowerHex c

def validUuid (s : String) : Bool := s.toList.length=36 && s.toList.zipIdx.all fun x => uuidChar x.2 x.1

structure Uuid where
  text : String
  valid : validUuid text=true

/-- The first twelve hexadecimal digits. -/
def Uuid.short12 (u : Uuid) : List Char := (u.text.toList.filter fun c => c ≠ '-').take 12

inductive Leg | entry | stop | takeProfit | cancel | close | transfer
deriving DecidableEq

def Leg.code : Leg → Char
  | entry => 'e'
  | stop => 's'
  | takeProfit => 't'
  | cancel => 'c'
  | close => 'x'
  | transfer => 'f'

def Leg.all : List Leg := [entry,stop,takeProfit,cancel,close,transfer]

def validClientOrderId (s : String) : Bool :=
  1 ≤ s.utf8ByteSize && s.utf8ByteSize ≤ maxLen &&
    s.toList.all fun c => c.isAlphanum || c ∈ ['.', ':', '/', '_', '-']

structure ScalarError where
  kind : String
  value : String
deriving DecidableEq

/-- `client_order_id`. -/
def clientOrderId (intentId : Uuid) (leg : Leg) (legIndex attemptNo : UInt32) :
    Except ScalarError String :=
  let text := localPrefix ++ String.ofList intentId.short12 ++ "-" ++ leg.code.toString ++
    toString legIndex.toNat ++ "-" ++ toString attemptNo.toNat
  if validClientOrderId text then .ok text else .error ⟨"ClientOrderId",text⟩

structure ParsedClientOrderId where
  intent12 : String
  leg : Leg
  legIndex : ℕ
  attemptNo : ℕ
deriving DecidableEq

/-- The parts as `client_order_id` puts them together. -/
def ParsedClientOrderId.text (p : ParsedClientOrderId) : String :=
  localPrefix ++ p.intent12 ++ "-" ++ p.leg.code.toString ++ toString p.legIndex ++ "-" ++ toString p.attemptNo

/-- `parse_local`; an id of other than ASCII characters is rejected by the digits. -/
def parseLocal (id : String) : Option ParsedClientOrderId :=
  if prefixed id then
    match (id.toList.drop localPrefix.length).splitOn '-' with
    | [intent12,code::legIndex,attemptNo] => do
      guard (intent12.length=12 ∧ intent12.all isLowerHex)
      let leg ← Leg.all.find? fun leg => leg.code=code
      let legIndex ← Rust.parseUnsigned (2^32) legIndex
      let attemptNo ← Rust.parseUnsigned (2^32) attemptNo
      return ⟨String.ofList intent12,leg,legIndex,attemptNo⟩
    | _ => none
  else none

/-- `classify_order_origin`. -/
def classifyOrderOrigin : Option String → OrderOrigin
  | none => .unknown
  | some id =>
    if id="" then .unknown else if (parseLocal id).isSome then .localOrder else .foreign

/-! The contracts, in TypeScript. -/

/-- `toLowerCase` of a character, as far as the result has Latin letters without accents. -/
def lowerChar (c : Char) : List Char :=
  if c.toNat=0x130 then ['i', Char.ofNat 0x307] else if c.toNat=0x212A then ['k'] else [c.toLower]

structure ClientOrderIdParams where
  intentId : String
  leg : Leg
  legIndex : Js.Num
  attemptNo : Js.Num
  legIndexExact : Double.Exact legIndex
  attemptNoExact : Double.Exact attemptNo

def ClientOrderIdParams.intent12 (p : ClientOrderIdParams) : List Char :=
  Js.sliceChars 12 ((p.intentId.toList.filter fun c => c ≠ '-').flatMap lowerChar)

/-- `clientOrderId`, which throws a message. -/
def ClientOrderIdParams.clientOrderId (p : ClientOrderIdParams) : Except String String :=
  let id := localPrefix ++ String.ofList p.intent12 ++ "-" ++ p.leg.code.toString ++
    Double.text p.legIndex ++ "-" ++ Double.text p.attemptNo
  if maxLen<Js.lengthOf id then
    .error ("clientOrderId: \"" ++ id ++ "\" exceeds max_len " ++ toString maxLen)
  else .ok id

/-- `classifyOrderOrigin`. -/
def originByPrefix (id : String) : OrderOrigin := if prefixed id then .localOrder else .foreign

end TradeGate.OrderId

/-! The execution core. -/
namespace TradeGate.ExecCore
open OrderId

def intentHexLen : ℕ := 12

inductive Leg | entry | stop | takeProfit | close | extra
deriving DecidableEq

def Leg.code : Leg → Char
  | entry => 'e'
  | stop => 's'
  | takeProfit => 't'
  | close => 'c'
  | extra => 'x'

def Leg.fromCode (code : Char) : Option Leg :=
  if code = 'e' then some .entry
  else if code = 's' then some .stop
  else if code = 't' then some .takeProfit
  else if code = 'c' then some .close
  else if code = 'x' then some .extra
  else none

structure ClientOrderId where
  intentPrefix : List Char
  leg : Leg
  attempt : UInt32

inductive IdError | noHexInIntentId | attemptTooLarge (attempt : UInt32)
deriving DecidableEq

/-- `ClientOrderId::new`. -/
def ClientOrderId.new (intentId : String) (leg : Leg) (attempt : UInt32) :
    Except IdError ClientOrderId :=
  let hex := ((intentId.toList.filter isHex).map Char.toLower).take intentHexLen
  if hex=[] then .error .noHexInIntentId
  else if 999999<attempt.toNat then .error (.attemptTooLarge attempt)
  else .ok ⟨hex++List.replicate (intentHexLen-hex.length) '0',leg,attempt⟩

def ClientOrderId.text (id : ClientOrderId) : String :=
  localPrefix ++ String.ofList id.intentPrefix ++ "-" ++ id.leg.code.toString ++ "-" ++
    toString id.attempt.toNat

/-- `ClientOrderId::parse`. -/
def ClientOrderId.parse (id : String) : Option ClientOrderId :=
  if prefixed id then
    match (id.toList.drop localPrefix.length).splitOn '-' with
    | [intentPrefix,[code],attempt] => do
      guard (intentPrefix.length=intentHexLen ∧ intentPrefix.all isLowerHex)
      let leg ← Leg.fromCode code
      let attempt ← Rust.parseUnsigned (2^32) attempt
      return ⟨intentPrefix,leg,.ofNat attempt⟩
    | _ => none
  else none

def isLocal (id : String) : Bool := prefixed id

def isForeign (id : String) : Bool := !isLocal id

end TradeGate.ExecCore
