import Mathlib
import TradeGate.Words.Basic

/-! The strings with a checked format: the checks of execd, and the patterns of the schema. -/
namespace TradeGate.Scalars
open Words

/-! The checks. -/

/-- `str::len`, in bytes. -/
def byteLen (s : String) : ℕ := (s.toList.map Char.utf8Size).sum

def isLowerHex (c : Char) : Bool := c.isDigit || ('a' ≤ c && c ≤ 'f')

/-- The character that may stand at the position of a UUID. -/
def uuidChar : ℕ → Char → Bool
  | 8, c => c= '-'
  | 13, c => c= '-'
  | 18, c => c= '-'
  | 23, c => c= '-'
  | 14, c => '1' ≤ c && c ≤ '8'
  | 19, c => c= '8' || c= '9' || c= 'a' || c= 'b'
  | _, c => isLowerHex c

def validUuid (s : String) : Bool := s.toList.length=36 && s.toList.zipIdx.all fun (c,i) => uuidChar i c

/-- The rest of `valid_decimal` once the sign is off. -/
def validMagnitude (rest : List Char) : Bool :=
  let intPart := rest.takeWhile (· ≠ '.')
  let fracPart := (rest.dropWhile (· ≠ '.')).tail?
  if intPart.isEmpty || !intPart.all Char.isDigit then false
  else if 1 < intPart.length && intPart.head?=some '0' then false
  else match fracPart with
    | some f => !f.isEmpty && f.all Char.isDigit
    | none => true

def validDecimal (s : String) (allowNegative : Bool) : Bool :=
  match s.toList with
  | '-'::rest => if !allowNegative then false else validMagnitude rest
  | rest => validMagnitude rest

def validHash256 (s : String) : Bool := byteLen s=64 && s.toList.all isLowerHex

def isUpperOrDigit (c : Char) : Bool := c.isUpper || c.isDigit

def validSymbol (s : String) : Bool := (2 ≤ byteLen s && byteLen s ≤ 20) && s.toList.all isUpperOrDigit

def validAsset (s : String) : Bool := (1 ≤ byteLen s && byteLen s ≤ 12) && s.toList.all isUpperOrDigit

def isIdChar (c : Char) : Bool := c.isAlphanum || c= '.' || c= ':' || c= '/' || c= '_' || c= '-'

def validClientOrderId (s : String) : Bool := (1 ≤ byteLen s && byteLen s ≤ 36) && s.toList.all isIdChar

/-- The types that `validated_string!` makes. -/
inductive Kind | uuid | decimal | unsignedDecimal | hash256 | symbol | asset | clientOrderId
deriving DecidableEq

def Kind.isValid : Kind → String → Bool
  | uuid, s => validUuid s
  | decimal, s => validDecimal s true
  | unsignedDecimal, s => validDecimal s false
  | hash256, s => validHash256 s
  | symbol, s => validSymbol s
  | asset, s => validAsset s
  | clientOrderId, s => validClientOrderId s

/-- A string of the kind, with its check. -/
structure Scalar (k : Kind) where
  text : String
  valid : k.isValid text=true
deriving DecidableEq

/-- `new`; the error has the kind and the value. -/
def Kind.new (k : Kind) (value : String) : Except (Kind × String) (Scalar k) :=
  if h : k.isValid value=true then .ok ⟨value,h⟩ else .error (k,value)

/-- The first twelve digits of a UUID. -/
def Scalar.short12 (u : Scalar .uuid) : String := .ofList ((u.text.toList.filter fun c => c ≠ '-').take 12)

/-! The patterns. -/

/-- A letter itself. -/
def lit (c : Char) : Language Char := one fun d => d=c

/-- A range in a class. -/
def range (a b : Char) (c : Char) : Bool := a ≤ c && c ≤ b

/-- `[0-9a-f]`. -/
def hexClass (c : Char) : Bool := range '0' '9' c || range 'a' 'f' c

/-- `[A-Z0-9]`. -/
def symbolClass (c : Char) : Bool := range 'A' 'Z' c || range '0' '9' c

/-- `[\.A-Z:/a-z0-9_-]`. -/
def idClass (c : Char) : Bool :=
  c= '.' || range 'A' 'Z' c || c= ':' || c= '/' || range 'a' 'z' c || range '0' '9' c || c= '_' || c= '-'

/-- `(0|[1-9][0-9]*)(\.[0-9]+)?`. -/
def magnitudePattern : Language Char :=
  (lit '0'+one (range '1' '9')*KStar.kstar (one (range '0' '9')))*optional (lit '.'*many1 (one (range '0' '9')))

/-- The pattern of the kind in the schema, from its start to its end. -/
def Kind.pattern : Kind → Language Char
  | uuid => one hexClass^8*lit '-'*one hexClass^4*lit '-'*one (range '1' '8')*one hexClass^3*lit '-'*
      one (fun c => c= '8' || c= '9' || c= 'a' || c= 'b')*one hexClass^3*lit '-'*one hexClass^12
  | decimal => optional (lit '-')*magnitudePattern
  | unsignedDecimal => magnitudePattern
  | hash256 => one hexClass^64
  | symbol => between 2 18 (one symbolClass)
  | asset => between 1 11 (one symbolClass)
  | clientOrderId => between 1 35 (one idClass)

end TradeGate.Scalars
