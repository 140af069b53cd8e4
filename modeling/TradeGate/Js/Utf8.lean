import Mathlib.Data.Nat.Notation
import Mathlib.Tactic.Common

/-! UTF-8.  The decoder takes one byte after the other; a sequence that cannot go on becomes U+FFFD, and the
byte that broke it is looked at again. -/
namespace Js.Utf8

/-- `Buffer.from(s, 'utf8')`. -/
def encode (cs : List Char) : List UInt8 := cs.flatMap String.utf8EncodeChar

def replacement : Char := Char.ofNat 0xFFFD

/-- A character that is not complete: how many bytes it needs, the bounds of the next one, and the bits
that were read. -/
structure Open where
  needed : ℕ
  lower : ℕ
  upper : ℕ
  point : ℕ

/-- The first byte of a longer sequence. -/
def lead (b : ℕ) : Option Open :=
  if b<0xC2 then none
  else if b ≤ 0xDF then some ⟨1,0x80,0xBF,b-0xC0⟩
  else if b ≤ 0xEF then
    some ⟨2,if b=0xE0 then 0xA0 else 0x80,if b=0xED then 0x9F else 0xBF,b-0xE0⟩
  else if b ≤ 0xF4 then
    some ⟨3,if b=0xF0 then 0x90 else 0x80,if b=0xF4 then 0x8F else 0xBF,b-0xF0⟩
  else none

/-- A byte between characters. -/
def first (b : ℕ) : List Char × Option Open :=
  if b<0x80 then ([Char.ofNat b],none)
  else match lead b with
    | some o => ([],some o)
    | none => ([replacement],none)

/-- `buf.toString('utf8')`. -/
def decodeFrom : Option Open → List UInt8 → List Char
  | none, [] => []
  | some _, [] => [replacement]
  | none, b::bs => (first b.toNat).1 ++ decodeFrom (first b.toNat).2 bs
  | some o, b::bs =>
    if o.lower ≤ b.toNat ∧ b.toNat ≤ o.upper then
      let point := o.point*64+(b.toNat-0x80)
      if o.needed=1 then Char.ofNat point::decodeFrom none bs
      else decodeFrom (some ⟨o.needed-1,0x80,0xBF,point⟩) bs
    else replacement::((first b.toNat).1 ++ decodeFrom (first b.toNat).2 bs)

def decode (bs : List UInt8) : List Char := decodeFrom none bs

example : decode [0x61,0xE2,0x82,0xAC,0xE2,0x82,0x62,0xFF]=['a','€',replacement,'b',replacement] := by decide

section
variable {bs : List UInt8} {n : ℕ}

theorem toNat_ofNat (h : n<256) : (UInt8.ofNat n).toNat=n := by
  rw [UInt8.toNat_ofNat']
  exact Nat.mod_eq_of_lt h

theorem decodeFrom_last {o : Open} (hn : o.needed=1) (h : n<256) (hlo : o.lower ≤ n) (hhi : n ≤ o.upper) :
    decodeFrom (some o) (UInt8.ofNat n::bs)=Char.ofNat (o.point*64+(n-0x80))::decodeFrom none bs := by
  rw [decodeFrom,toNat_ofNat h,if_pos ⟨hlo,hhi⟩,if_pos hn]

theorem decodeFrom_more {o : Open} (hn : o.needed ≠ 1) (h : n<256) (hlo : o.lower ≤ n) (hhi : n ≤ o.upper) :
    decodeFrom (some o) (UInt8.ofNat n::bs) =
      decodeFrom (some ⟨o.needed-1,0x80,0xBF,o.point*64+(n-0x80)⟩) bs := by
  rw [decodeFrom,toNat_ofNat h,if_pos ⟨hlo,hhi⟩,if_neg hn]

theorem decodeFrom_lead {o : Open} (h : n<256) (hn : 0x80 ≤ n) (hl : lead n=some o) :
    decodeFrom none (UInt8.ofNat n::bs)=decodeFrom (some o) bs := by
  rw [decodeFrom,toNat_ofNat h,first,if_neg (by omega),hl]
  rfl

/-- A character that was encoded is decoded, whatever follows. -/
theorem decodeFrom_encodeChar (c : Char) (bs : List UInt8) :
    decodeFrom none (String.utf8EncodeChar c ++ bs)=c::decodeFrom none bs := by
  have hvalid : c.toNat<0xD800 ∨ 0xDFFF<c.toNat ∧ c.toNat<0x110000 := c.valid
  have hc : Char.ofNat c.toNat=c := Char.ofNat_toNat c
  unfold String.utf8EncodeChar
  rw [show c.val.toNat=c.toNat from rfl]
  dsimp only
  generalize c.toNat=v at hvalid hc
  split
  next h =>
    rw [List.singleton_append,decodeFrom,toNat_ofNat (by omega),first,if_pos (by omega),hc]
    rfl
  next h =>
  split
  next h' =>
    have hl : lead (v/64%0x20+0xC0)=some ⟨1,0x80,0xBF,v/64%0x20+0xC0-0xC0⟩ := by
      rw [lead,if_neg (by omega),if_pos (by omega)]
    rw [List.cons_append,List.cons_append,decodeFrom_lead (by omega) (by omega) hl,
      decodeFrom_last rfl (by omega) (by dsimp only; omega) (by dsimp only; omega)]
    dsimp only
    rw [show (v/64%0x20+0xC0-0xC0)*64+(v%0x40+0x80-0x80)=v by omega,hc]
    rfl
  next h' =>
  split
  next h'' =>
    have hl : lead (v/4096%0x10+0xE0)=some ⟨2,if v/4096%0x10+0xE0=0xE0 then 0xA0 else 0x80,
        if v/4096%0x10+0xE0=0xED then 0x9F else 0xBF,v/4096%0x10+0xE0-0xE0⟩ := by
      rw [lead,if_neg (by omega),if_neg (by omega),if_pos (by omega)]
    rw [List.cons_append,List.cons_append,List.cons_append,decodeFrom_lead (by omega) (by omega) hl,
      decodeFrom_more (by dsimp only; omega) (by omega) (by dsimp only; split <;> omega) (by dsimp only; split <;> omega),
      decodeFrom_last rfl (by omega) (by dsimp only; omega) (by dsimp only; omega)]
    dsimp only
    rw [show ((v/4096%0x10+0xE0-0xE0)*64+(v/64%0x40+0x80-0x80))*64+(v%0x40+0x80-0x80)=v by omega,hc]
    rfl
  next h'' =>
    have hl : lead (v/262144%0x08+0xF0)=some ⟨3,if v/262144%0x08+0xF0=0xF0 then 0x90 else 0x80,
        if v/262144%0x08+0xF0=0xF4 then 0x8F else 0xBF,v/262144%0x08+0xF0-0xF0⟩ := by
      rw [lead,if_neg (by omega),if_neg (by omega),if_neg (by omega),if_pos (by omega)]
    rw [List.cons_append,List.cons_append,List.cons_append,List.cons_append,
      decodeFrom_lead (by omega) (by omega) hl,
      decodeFrom_more (by dsimp only; omega) (by omega) (by dsimp only; split <;> omega) (by dsimp only; split <;> omega),
      decodeFrom_more (by dsimp only; omega) (by omega) (by dsimp only; omega) (by dsimp only; omega),
      decodeFrom_last rfl (by omega) (by dsimp only; omega) (by dsimp only; omega)]
    dsimp only
    rw [show (((v/262144%0x08+0xF0-0xF0)*64+(v/4096%0x40+0x80-0x80))*64+(v/64%0x40+0x80-0x80))*64 +
      (v%0x40+0x80-0x80)=v by omega,hc]
    rfl

theorem decode_encode (cs : List Char) : decode (encode cs)=cs := by
  induction cs with
  | nil => rfl
  | cons c cs ih =>
    rw [encode,List.flatMap_cons,decode,decodeFrom_encodeChar]
    exact congrArg (c::·) ih

/-- A byte below 0x80 stands for its character. -/
theorem mem_of_mem_encode {cs : List Char} (hn : n<0x80) (h : UInt8.ofNat n ∈ encode cs) : Char.ofNat n ∈ cs := by
  obtain ⟨c,hc,hmem⟩ := List.mem_flatMap.mp h
  suffices hcn : c.toNat=n by
    rw [← hcn,Char.ofNat_toNat]
    exact hc
  have hbyte : ∀ m<256, UInt8.ofNat n=UInt8.ofNat m → n=m := by
    intro m hm heq
    have hnat := congrArg UInt8.toNat heq
    rwa [toNat_ofNat (by omega),toNat_ofNat hm] at hnat
  have hvalid : c.toNat<0xD800 ∨ 0xDFFF<c.toNat ∧ c.toNat<0x110000 := c.valid
  unfold String.utf8EncodeChar at hmem
  rw [show c.val.toNat=c.toNat from rfl] at hmem
  dsimp only at hmem
  generalize c.toNat=v at hvalid hmem
  split_ifs at hmem <;> simp only [List.mem_cons,List.not_mem_nil,or_false] at hmem
  · exact (hbyte _ (by omega) hmem).symm
  · rcases hmem with h | h <;> have hv := hbyte _ (by omega) h <;> omega
  · rcases hmem with h | h | h <;> have hv := hbyte _ (by omega) h <;> omega
  · rcases hmem with h | h | h | h <;> have hv := hbyte _ (by omega) h <;> omega

end

end Js.Utf8
