import Mathlib.Data.List.TakeWhile
import TradeGate.Js.Utf8

/-! Forms: pairs of texts written into one line, with the marks that part them escaped, and read back. -/
namespace Forms
open Js

/-- A digit of a number in base sixteen, in capitals. -/
def hexDigit (n : ℕ) : Char := (Nat.digitChar n).toUpper

def digitOf (c : Char) : Option ℕ :=
  if c.isDigit then some (c.toNat-48)
  else if 'A' ≤ c ∧ c ≤ 'F' then some (c.toNat-55)
  else if 'a' ≤ c ∧ c ≤ 'f' then some (c.toNat-87)
  else none

/-- Two characters as a number in base sixteen; the first may be a sign. -/
def byteOf (h l : Char) : Option UInt8 :=
  if h = '+' then (digitOf l).map UInt8.ofNat
  else (digitOf h).bind fun a => (digitOf l).map fun b => UInt8.ofNat (16*a+b)

theorem digitOf_hexDigit {n : ℕ} (h : n<16) : digitOf (hexDigit n)=some n := by
  have hall : ∀ n<16, digitOf (hexDigit n)=some n := by decide
  exact hall n h

theorem hexDigit_ne {n : ℕ} (h : n<16) :
    hexDigit n ≠ '+' ∧ hexDigit n ≠ '&' ∧ hexDigit n ≠ '=' := by
  have hall : ∀ n<16, hexDigit n ≠ '+' ∧ hexDigit n ≠ '&' ∧ hexDigit n ≠ '=' := by decide
  exact hall n h

theorem byteOf_hexDigit (b : UInt8) : byteOf (hexDigit (b.toNat/16)) (hexDigit (b.toNat%16))=some b := by
  have hb := b.toNat_lt
  have hh : b.toNat/16<16 := by omega
  have hl : b.toNat%16<16 := by omega
  rw [byteOf,if_neg (hexDigit_ne hh).1,digitOf_hexDigit hh,digitOf_hexDigit hl]
  simp only [Option.bind_some,Option.map_some,Option.some.injEq]
  rw [Nat.div_add_mod]
  exact UInt8.ofNat_toNat

/-- Characters that stand for themselves: single bytes, and no marks. -/
structure Plain (plain : Char → Bool) : Prop where
  ascii : ∀ c, plain c → c.toNat<128
  marks : ∀ c ∈ ['%','+','&','='], plain c=false

variable {plain : Char → Bool}

/-- A byte as it is, a blank as a plus, and anything else as its number. -/
def escapeByte (plain : Char → Bool) (b : UInt8) : List Char :=
  if plain (Char.ofNat b.toNat) then [Char.ofNat b.toNat]
  else if b=32 then ['+']
  else ['%',hexDigit (b.toNat/16),hexDigit (b.toNat%16)]

def escape (plain : Char → Bool) (cs : List Char) : List Char := (Utf8.encode cs).flatMap (escapeByte plain)

def unescape : List Char → List UInt8
  | [] => []
  | '+'::cs => 32::unescape cs
  | '%'::h::l::cs =>
    match byteOf h l with
    | some b => b::unescape cs
    | none => 37::unescape (h::l::cs)
  | c::cs => String.utf8EncodeChar c++unescape cs

theorem toNat_ofNat_byte (b : UInt8) : (Char.ofNat b.toNat).toNat=b.toNat := by
  have hv : b.toNat.isValidChar := .inl (by have := b.toNat_lt; omega)
  rw [Char.ofNat,dif_pos hv]
  rfl

theorem utf8_of_ascii {b : UInt8} (h : b.toNat<128) : String.utf8EncodeChar (Char.ofNat b.toNat)=[b] := by
  have hn := toNat_ofNat_byte b
  have hv : (Char.ofNat b.toNat).val.toNat=b.toNat := hn
  simp only [String.utf8EncodeChar,hv,if_pos (Nat.le_of_lt_succ h)]
  exact congrArg (fun x => [x]) UInt8.ofNat_toNat

theorem unescape_plain (hp : Plain plain) {c : Char} (h : plain c) (cs : List Char) :
    unescape (c::cs)=String.utf8EncodeChar c++unescape cs := by
  have hplus : c ≠ '+' := by
    rintro rfl
    rw [hp.marks '+' (by decide)] at h
    cases h
  have hpercent : c ≠ '%' := by
    rintro rfl
    rw [hp.marks '%' (by decide)] at h
    cases h
  rw [unescape.eq_def]
  split
  · next h => cases h
  · next h =>
    cases h
    exact absurd rfl hplus
  · next h =>
    cases h
    exact absurd rfl hpercent
  · next h =>
    cases h
    rfl

theorem unescape_escapeByte (hp : Plain plain) (b : UInt8) (cs : List Char) :
    unescape (escapeByte plain b++cs)=b::unescape cs := by
  unfold escapeByte
  split_ifs with hplain hblank
  · have hb : b.toNat<128 := by
      rw [← toNat_ofNat_byte b]
      exact hp.ascii _ hplain
    rw [List.singleton_append,unescape_plain hp hplain,utf8_of_ascii hb,List.singleton_append]
  · rw [hblank,List.singleton_append,unescape]
  · change unescape ('%'::hexDigit (b.toNat/16)::hexDigit (b.toNat%16)::cs) = _
    rw [unescape,byteOf_hexDigit]

theorem unescape_escape (hp : Plain plain) (cs : List Char) : unescape (escape plain cs)=Utf8.encode cs := by
  unfold escape
  induction Utf8.encode cs with
  | nil => rfl
  | cons b bs ih => rw [List.flatMap_cons,unescape_escapeByte hp,ih]

theorem not_mark_escape (hp : Plain plain) {c : Char} (hc : c ∈ ['&','=']) (cs : List Char) : c ∉ escape plain cs := by
  intro h
  obtain ⟨b,-,hb⟩ := List.mem_flatMap.mp h
  have hlt := b.toNat_lt
  unfold escapeByte at hb
  split_ifs at hb with hplain
  · rw [List.mem_singleton] at hb
    subst hb
    rw [hp.marks _ (List.mem_cons_of_mem _ (List.mem_cons_of_mem _ hc))] at hplain
    cases hplain
  · rw [List.mem_singleton] at hb
    subst hb
    revert hc
    decide
  · simp only [List.mem_cons,List.not_mem_nil,or_false] at hb hc
    have hh := hexDigit_ne (n := b.toNat/16) (by omega)
    have hl := hexDigit_ne (n := b.toNat%16) (by omega)
    rcases hb with rfl | rfl | rfl <;> simp_all

/-- What stands for itself is escaped to itself. -/
theorem escape_of_plain (hp : Plain plain) {cs : List Char} (h : ∀ c ∈ cs, plain c) : escape plain cs=cs := by
  induction cs with
  | nil => rfl
  | cons c cs ih =>
    have hc := h c List.mem_cons_self
    have hlt := hp.ascii c hc
    have hnat : (UInt8.ofNat c.toNat).toNat=c.toNat := Utf8.toNat_ofNat (by omega)
    have hchar : c=Char.ofNat (UInt8.ofNat c.toNat).toNat := by rw [hnat,Char.ofNat_toNat]
    have hbyte : String.utf8EncodeChar c=[UInt8.ofNat c.toNat] := by
      rw [← utf8_of_ascii (hnat.trans_lt hlt),← hchar]
    have hcons : escape plain (c::cs)=escapeByte plain (UInt8.ofNat c.toNat)++escape plain cs := by
      simp only [escape,Utf8.encode,List.flatMap_cons,hbyte,List.singleton_append]
    rw [hcons,ih fun x hx => h x (List.mem_cons_of_mem _ hx),escapeByte,← hchar,if_pos hc,List.singleton_append]

/-! Pairs. -/

def pair (plain : Char → Bool) (p : List Char × List Char) : List Char :=
  escape plain p.1++ '='::escape plain p.2

/-- The pairs in one line. -/
def write (plain : Char → Bool) (ps : List (List Char × List Char)) : List Char :=
  ['&'].intercalate (ps.map (pair plain))

def decode (cs : List Char) : List Char := Utf8.decode (unescape cs)

/-- What stands on the two sides of the first equals sign. -/
def sides (cs : List Char) : List Char × List Char :=
  (decode (cs.takeWhile fun c => c ≠ '='),decode ((cs.dropWhile fun c => c ≠ '=').drop 1))

/-- The pairs of a line. -/
def read (cs : List Char) : List (List Char × List Char) := ((cs.splitOn '&').filter fun p => p ≠ []).map sides

theorem decode_escape (hp : Plain plain) (cs : List Char) : decode (escape plain cs)=cs := by
  rw [decode,unescape_escape hp,Utf8.decode_encode]

theorem sides_pair (hp : Plain plain) (p : List Char × List Char) : sides (pair plain p)=p := by
  have hkey : ∀ c ∈ escape plain p.1, decide (c ≠ '=')=true := fun c hc =>
    decide_eq_true fun h => not_mark_escape hp (by decide) p.1 (h ▸ hc)
  unfold sides pair
  rw [List.takeWhile_append_of_pos hkey,List.dropWhile_append_of_pos hkey,List.takeWhile_cons_of_neg (by decide),
    List.dropWhile_cons_of_neg (by decide),List.append_nil,List.drop_one,List.tail_cons,decode_escape hp,
    decode_escape hp]

theorem pair_ne_nil (p : List Char × List Char) : pair plain p ≠ [] := by
  unfold pair
  exact List.append_ne_nil_of_right_ne_nil _ (List.cons_ne_nil _ _)

theorem not_mark_pair (hp : Plain plain) (p : List Char × List Char) : '&' ∉ pair plain p := by
  intro h
  rcases List.mem_append.mp h with h | h
  · exact not_mark_escape hp (by decide) _ h
  · rcases List.mem_cons.mp h with h | h
    · cases h
    · exact not_mark_escape hp (by decide) _ h

/-- A line reads back as the pairs it was written from. -/
theorem read_write (hp : Plain plain) (ps : List (List Char × List Char)) : read (write plain ps)=ps := by
  unfold read write
  rcases ps with _ | ⟨p,ps⟩
  · rfl
  have hmark : ∀ l ∈ (p::ps).map (pair plain), '&' ∉ l := by
    intro l hl
    obtain ⟨q,-,rfl⟩ := List.mem_map.mp hl
    exact not_mark_pair hp q
  have hfull : ((p::ps).map (pair plain)).filter (fun p => p ≠ [])=(p::ps).map (pair plain) := by
    refine List.filter_eq_self.mpr fun l hl => ?_
    obtain ⟨q,-,rfl⟩ := List.mem_map.mp hl
    exact decide_eq_true (pair_ne_nil q)
  rw [List.splitOn_intercalate '&' hmark (by simp),hfull,List.map_map]
  calc (p::ps).map (sides ∘ pair plain)
      = (p::ps).map id := List.map_congr_left fun q _ => sides_pair hp q
    _ = p::ps := List.map_id _

theorem write_append (ps : List (List Char × List Char)) (p : List Char × List Char) (h : ps ≠ []) :
    write plain (ps++[p])=write plain ps++ '&'::pair plain p := by
  unfold write
  induction ps with
  | nil => exact absurd rfl h
  | cons q qs ih =>
    rcases qs with _ | ⟨r,rs⟩
    · simp [List.intercalate_cons_cons]
    · have hih := ih (List.cons_ne_nil _ _)
      simp only [List.map_append,List.map_cons,List.cons_append,List.intercalate_cons_cons,List.append_assoc] at hih ⊢
      rw [hih]

end Forms
