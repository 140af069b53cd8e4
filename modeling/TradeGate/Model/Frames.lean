import Mathlib.Data.Int.Notation
import Mathlib.Data.List.TakeWhile
import Mathlib.Data.Nat.Notation
import TradeGate.Js.Parse
import TradeGate.Js.Utf8

/-! The frames of execd's socket, a line of compact JSON each: how they are written, how they are cut
out of the bytes that arrive, and what a connection makes of them. -/
namespace TradeGate.Rpc

def MAX_FRAME_BYTES : ℕ := 4*1024*1024

def newline : UInt8 := 10

/-- The errors of `serde_json` are kept as their texts. -/
inductive CodecError
  | frameTooLarge (bytes max : ℕ)
  | invalidJson (e : String)
  | serialize (e : String)
deriving DecidableEq

/-- What is used of `serde_json`: `to_vec` and `from_slice`. -/
structure Serde (V : Type) where
  toVec : V → Except String (List UInt8)
  fromSlice : List UInt8 → Except String V

/-- `u8::is_ascii_whitespace`. -/
def isAsciiWhitespace (b : UInt8) : Bool := b=32 || b=9 || b=10 || b=12 || b=13

/-- `line.strip_suffix(b"\r").unwrap_or(line)`. -/
def stripCr (line : List UInt8) : List UInt8 := if line.getLast?=some 13 then line.dropLast else line

section
variable {V : Type} (json : Serde V)

def encodeFrame (frame : V) : Except CodecError (List UInt8) :=
  match json.toVec frame with
  | .error e => .error (.serialize e)
  | .ok bytes =>
    if MAX_FRAME_BYTES<bytes.length+1 then .error (.frameTooLarge (bytes.length+1) MAX_FRAME_BYTES)
    else .ok (bytes ++ [newline])

structure FrameDecoder where
  buf : List UInt8 := []
  max : ℕ

/-- `FrameDecoder::new`. -/
def FrameDecoder.new : FrameDecoder := { max := MAX_FRAME_BYTES }

/-- `FrameDecoder::with_max`. -/
def FrameDecoder.withMax (max : ℕ) : FrameDecoder := { max := max }

/-- What is pending stands behind the last newline, or is everything. -/
def FrameDecoder.push (d : FrameDecoder) (chunk : List UInt8) : Except CodecError Unit × FrameDecoder :=
  let buf := d.buf ++ chunk
  let pending := (buf.reverse.takeWhile fun b => b ≠ newline).length
  (if d.max<pending then .error (.frameTooLarge pending d.max) else .ok (),{ d with buf := buf })

def FrameDecoder.nextFrame (d : FrameDecoder) : Except CodecError (Option V) × FrameDecoder :=
  match _hrest : d.buf.dropWhile fun b => b ≠ newline with
  | [] => (.ok none,d)
  | _::rest =>
    let line := stripCr (d.buf.takeWhile fun b => b ≠ newline)
    let d' : FrameDecoder := { d with buf := rest }
    if line.all isAsciiWhitespace then d'.nextFrame
    else if d.max<line.length then (.error (.frameTooLarge line.length d.max),d')
    else match json.fromSlice line with
      | .ok v => (.ok (some v),d')
      | .error e => (.error (.invalidJson e),d')
termination_by d.buf.length
decreasing_by
  have hlen := List.length_dropWhile_le (fun b => b ≠ newline) d.buf
  rw [_hrest,List.length_cons] at hlen
  exact hlen

variable {json}

theorem FrameDecoder.nextFrame_shorter {d d' : FrameDecoder} {r : Except CodecError (Option V)}
    (h : d.nextFrame json=(r,d')) (hr : r ≠ .ok none) : d'.buf.length<d.buf.length := by
  have hlen : ∀ d : FrameDecoder, ∀ c rest, d.buf.dropWhile (fun b => b ≠ newline)=c::rest →
      rest.length<d.buf.length := by
    intro d c rest hrest
    have h := List.length_dropWhile_le (fun b => b ≠ newline) d.buf
    rw [hrest,List.length_cons] at h
    exact h
  fun_induction FrameDecoder.nextFrame json d with
  | case1 =>
    cases h
    exact absurd rfl hr
  | case2 d c rest hrest line d₁ hblank ih => exact (ih h).trans (hlen d c rest hrest)
  | case3 d c rest hrest =>
    rw [← (Prod.mk.inj h).2]
    exact hlen d c rest hrest
  | case4 d c rest hrest =>
    rw [← (Prod.mk.inj h).2]
    exact hlen d c rest hrest
  | case5 d c rest hrest =>
    rw [← (Prod.mk.inj h).2]
    exact hlen d c rest hrest

variable (json)

/-- What is made of the decoder's results: a frame, or a failure that is answered. -/
inductive Output (V : Type)
  | frame (v : V)
  | failure (code : ℤ) (e : CodecError)

/-- The inner loop of `handle_connection`: the frames that are complete, one by one. -/
def FrameDecoder.drain (d : FrameDecoder) : List (Output V) × FrameDecoder :=
  match _hnext : d.nextFrame json with
  | (.ok none,d') => ([],d')
  | (.ok (some v),d') => (.frame v::(d'.drain).1,(d'.drain).2)
  | (.error e,d') => (.failure (-32700) e::(d'.drain).1,(d'.drain).2)
termination_by d.buf.length
decreasing_by all_goals exact FrameDecoder.nextFrame_shorter _hnext (by simp)

/-- `handle_connection`: the chunks are read until one cannot be taken. -/
def handleConnection (d : FrameDecoder) : List (List UInt8) → List (Output V)
  | [] => []
  | chunk::chunks =>
    match d.push chunk with
    | (.error e,_) => [.failure (-32600) e]
    | (.ok (),d') => (d'.drain json).1 ++ handleConnection (d'.drain json).2 chunks

end

end TradeGate.Rpc

/-! The frames of the gateway's socket to execd: how they are written, how the chunks that arrive are decoded,
and what the client gets of them. -/
namespace TradeGate.Ndjson
open Js

def DEFAULT_MAX_FRAME_BYTES : ℕ := 4*1024*1024

def newline : UInt8 := 10

inductive DecodeError
  | frameTooLarge (size limit : ℕ)
  | syntaxError
deriving DecidableEq

def encodeFrame (obj : Value) : List UInt8 := Utf8.encode (Json.stringify [] obj ++ ['\n'])

structure NdjsonDecoder where
  buffer : List UInt8 := []
  maxBytes : ℕ := DEFAULT_MAX_FRAME_BYTES

/-- The loop of `push`: the lines up to the last newline, and what stands behind it. -/
def takeFrames (maxBytes : ℕ) (buffer : List UInt8) : Except DecodeError (List Value × List UInt8) :=
  match _hrest : buffer.dropWhile fun b => b ≠ newline with
  | [] => .ok ([],buffer)
  | _::rest =>
    let bytes := buffer.takeWhile fun b => b ≠ newline
    if maxBytes<bytes.length then .error (.frameTooLarge bytes.length maxBytes)
    else
      let line := Utf8.decode bytes
      if strip line=[] then takeFrames maxBytes rest
      else match Json.parse line with
        | none => .error .syntaxError
        | some frame => (takeFrames maxBytes rest).map fun p => (frame::p.1,p.2)
termination_by buffer.length
decreasing_by
  all_goals
    have hlen := List.length_dropWhile_le (fun b => b ≠ newline) buffer
    rw [_hrest,List.length_cons] at hlen
    exact hlen

/-- When a line cannot be taken, `push` throws and the buffer stays as it is. -/
def NdjsonDecoder.push (d : NdjsonDecoder) (chunk : List UInt8) :
    Except DecodeError (List Value) × NdjsonDecoder :=
  let buffer := d.buffer ++ chunk
  match takeFrames d.maxBytes buffer with
  | .error e => (.error e,{ d with buffer := buffer })
  | .ok (frames,rest) =>
    (if d.maxBytes<rest.length then .error (.frameTooLarge rest.length d.maxBytes) else .ok frames,
      { d with buffer := rest })

/-- The client's `data` handler: the frames it handles, and the error it destroys the socket with. -/
def deliver (d : NdjsonDecoder) : List (List UInt8) → List Value × Option DecodeError
  | [] => ([],none)
  | chunk::chunks =>
    match d.push chunk with
    | (.error e,_) => ([],some e)
    | (.ok frames,d') => (frames ++ (deliver d' chunks).1,(deliver d' chunks).2)

end TradeGate.Ndjson
