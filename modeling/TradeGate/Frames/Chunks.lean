import TradeGate.Frames.Lines
import TradeGate.Model.Frames

/-! What execd makes of a stream of bytes, and how much of it hangs on the cuts.  A line that is too long
is either answered or ends the connection, whichever its chunks bring about. -/
namespace TradeGate.Rpc
open Frames

section
variable {V : Type} {json : Serde V} {d d' : FrameDecoder} {max : ℕ} {p l rest chunk stream : List UInt8}
  {chunks : List (List UInt8)} {r : Except CodecError (Option V)}

/-- A line of white space, which is passed over. -/
def Blank (line : List UInt8) : Prop := (stripCr line).all isAsciiWhitespace

instance (line : List UInt8) : Decidable (Blank line) := inferInstanceAs (Decidable (_=true))

/-- What a line that is not blank comes to. -/
def reading (json : Serde V) (max : ℕ) (line : List UInt8) : Output V :=
  if max<(stripCr line).length then .failure (-32700) (.frameTooLarge (stripCr line).length max)
  else match json.fromSlice (stripCr line) with
    | .ok v => .frame v
    | .error e => .failure (-32700) (.invalidJson e)

def answer (json : Serde V) (max : ℕ) (line : List UInt8) : Option (Output V) :=
  if Blank line then none else some (reading json max line)

/-- The loop goes on with what `next_frame` leaves. -/
def goOn (json : Serde V) : Except CodecError (Option V) × FrameDecoder → List (Output V) × FrameDecoder
  | (.ok none,d) => ([],d)
  | (.ok (some v),d) => (.frame v::(d.drain json).1,(d.drain json).2)
  | (.error e,d) => (.failure (-32700) e::(d.drain json).1,(d.drain json).2)

theorem drain_goOn (d : FrameDecoder) : d.drain json=goOn json (d.nextFrame json) := by
  rw [FrameDecoder.drain]
  split
  all_goals
    next heq =>
      rw [heq]
      rfl

theorem nextFrame_open (h : newline ∉ d.buf) : d.nextFrame json=(.ok none,d) := by
  have hnil : d.buf.dropWhile (fun b => b ≠ newline)=[] := by
    rw [List.dropWhile_eq_nil_iff]
    intro b hb
    simpa using fun hbn : b=newline => h (hbn ▸ hb)
  rw [FrameDecoder.nextFrame]
  split
  next => rfl
  next heq =>
    rw [hnil] at heq
    cases heq

theorem nextFrame_line (hbuf : d.buf=l ++ newline::rest) (hl : newline ∉ l) :
    d.nextFrame json=
      if Blank l then (FrameDecoder.mk rest d.max).nextFrame json
      else match reading json d.max l with
        | .frame v => (.ok (some v),⟨rest,d.max⟩)
        | .failure _ e => (.error e,⟨rest,d.max⟩) := by
  rw [FrameDecoder.nextFrame]
  split
  next heq =>
    rw [hbuf,dropWhile_line hl] at heq
    cases heq
  next heq =>
    rw [hbuf,dropWhile_line hl] at heq
    cases heq
    dsimp only
    rw [hbuf,takeWhile_line hl]
    unfold reading
    by_cases hblank : Blank l
    · rw [if_pos hblank]
      exact if_pos hblank
    · rw [if_neg hblank]
      refine (if_neg hblank).trans ?_
      split
      next => rfl
      next => cases json.fromSlice (stripCr l) <;> rfl

theorem drain_line (hbuf : d.buf=l ++ newline::rest) (hl : newline ∉ l) :
    d.drain json=((answer json d.max l).toList ++ ((FrameDecoder.mk rest d.max).drain json).1,
      ((FrameDecoder.mk rest d.max).drain json).2) := by
  rw [drain_goOn,nextFrame_line hbuf hl]
  unfold answer
  by_cases hblank : Blank l
  · rw [if_pos hblank,if_pos hblank,← drain_goOn]
    rfl
  · rw [if_neg hblank,if_neg hblank]
    by_cases hlong : d.max<(stripCr l).length
    · simp only [reading,if_pos hlong]
      rfl
    · simp only [reading,if_neg hlong]
      cases json.fromSlice (stripCr l) <;> rfl

/-- All complete lines are answered in order, and the open one is kept. -/
theorem drain_eq (d : FrameDecoder) : d.drain json=((lines newline [] d.buf).1.filterMap (answer json d.max),
    ⟨(lines newline [] d.buf).2,d.max⟩) := by
  generalize hls : (lines newline [] d.buf).1=ls
  induction ls generalizing d with
  | nil =>
    have hopen := notMem_of_lines_nil hls
    rw [drain_goOn,nextFrame_open hopen,lines_of_notMem hopen]
    rfl
  | cons l ls ih =>
    obtain ⟨rest,hbuf,hl,hrest⟩ := exists_of_lines_cons (Prod.ext hls rfl)
    rw [drain_line hbuf hl,ih ⟨rest,d.max⟩ (congrArg Prod.fst hrest),List.filterMap_cons]
    rw [hrest]
    cases answer json d.max l <;> rfl

theorem push_eq (h : newline ∉ d.buf) (chunk : List UInt8) :
    d.push chunk=(if d.max<(lines newline d.buf chunk).2.length then
      .error (.frameTooLarge (lines newline d.buf chunk).2.length d.max) else .ok (),
      ⟨d.buf ++ chunk,d.max⟩) := by
  rw [← lines_open h,lines_open_eq,List.length_reverse]
  rfl

/-- What one more chunk does to a connection. -/
theorem handleConnection_cons (h : newline ∉ p) :
    handleConnection json ⟨p,max⟩ (chunk::chunks)=
      if max<(lines newline p chunk).2.length then
        [.failure (-32600) (.frameTooLarge (lines newline p chunk).2.length max)]
      else (lines newline p chunk).1.filterMap (answer json max) ++
        handleConnection json ⟨(lines newline p chunk).2,max⟩ chunks := by
  rw [handleConnection,push_eq (d := ⟨p,max⟩) h]
  by_cases hlong : max<(lines newline p chunk).2.length
  · simp only [if_pos hlong]
  · simp only [if_neg hlong,drain_eq,lines_open h]

/-- While nothing is too long, every line is answered. -/
theorem handleConnection_fits (h : newline ∉ p)
    (hl : ∀ l ∈ (lines newline p chunks.flatten).1, l.length ≤ max)
    (ht : (lines newline p chunks.flatten).2.length ≤ max) :
    handleConnection json ⟨p,max⟩ chunks=(lines newline p chunks.flatten).1.filterMap (answer json max) := by
  induction chunks generalizing p with
  | nil => rfl
  | cons chunk chunks ih =>
    rw [List.flatten_cons] at hl ht ⊢
    have hopen := length_open_le _ _ hl ht
    rw [lines_append] at hl ht ⊢
    have hrec := ih (notMem_open h) (fun l hmem => hl l (List.mem_append_right _ hmem)) ht
    rw [handleConnection_cons h,if_neg (by omega),hrec,List.filterMap_append]

/-- After blank lines a tail that is too long by one byte gives the same failure wherever it is cut. -/
theorem handleConnection_blank (h : newline ∉ p) (hp : p.length ≤ max)
    (hl : ∀ l ∈ (lines newline p chunks.flatten).1, Blank l ∧ l.length ≤ max+1)
    (ht : (lines newline p chunks.flatten).2.length=max+1) :
    handleConnection json ⟨p,max⟩ chunks=[.failure (-32600) (.frameTooLarge (max+1) max)] := by
  induction chunks generalizing p with
  | nil =>
    have hlen : p.length=max+1 := ht
    omega
  | cons chunk chunks ih =>
    rw [List.flatten_cons] at hl ht
    have hopen := length_open_le _ _ (fun l hmem => (hl l hmem).2) ht.le
    rw [lines_append] at hl ht
    rw [handleConnection_cons h]
    split
    next hlong =>
      rw [show (lines newline p chunk).2.length=max+1 by omega]
    next hshort =>
      have hrec := ih (notMem_open h) (by omega) (fun l hmem => hl l (List.mem_append_right _ hmem)) ht
      have hnone : (lines newline p chunk).1.filterMap (answer json max)=[] := by
        rw [List.filterMap_eq_nil_iff]
        intro l hmem
        exact if_pos (hl l (List.mem_append_left _ hmem)).1
      rw [hrec,hnone,List.nil_append]

/-- The cuts make no difference. -/
def Uncut (json : Serde V) (max : ℕ) (stream : List UInt8) : Prop :=
  ∀ chunks chunks' : List (List UInt8), chunks.flatten=stream → chunks'.flatten=stream →
    handleConnection json (.withMax max) chunks=handleConnection json (.withMax max) chunks'

/-- Nothing is too long; or all lines are blank, the tail is too long by one byte and no line by more. -/
def Fits (max : ℕ) (stream : List UInt8) : Prop :=
  ((∀ l ∈ (lines newline [] stream).1, l.length ≤ max) ∧ (lines newline [] stream).2.length ≤ max) ∨
    (∀ l ∈ (lines newline [] stream).1, Blank l ∧ l.length ≤ max+1) ∧
      (lines newline [] stream).2.length=max+1

theorem uncut_of_fits (h : Fits max stream) : Uncut json max stream := by
  rintro chunks chunks' hc hc'
  rcases h with ⟨hl,ht⟩ | ⟨hl,ht⟩
  · rw [FrameDecoder.withMax,handleConnection_fits,handleConnection_fits]
    all_goals simp_all
  · rw [FrameDecoder.withMax,handleConnection_blank,handleConnection_blank]
    all_goals simp_all

/-- A first chunk that leaves too much open ends the connection. -/
theorem handleConnection_long (json : Serde V) (chunks : List (List UInt8))
    (h : max<(lines newline [] chunk).2.length) : handleConnection json (.withMax max) (chunk::chunks)=
      [.failure (-32600) (.frameTooLarge (lines newline [] chunk).2.length max)] := by
  rw [FrameDecoder.withMax,handleConnection_cons List.not_mem_nil,if_pos h]

/-- A first chunk that does not is answered line by line. -/
theorem handleConnection_short (json : Serde V) (chunks : List (List UInt8))
    (h : (lines newline [] chunk).2.length ≤ max) : handleConnection json (.withMax max) (chunk::chunks)=
      (lines newline [] chunk).1.filterMap (answer json max) ++
        handleConnection json ⟨(lines newline [] chunk).2,max⟩ chunks := by
  rw [FrameDecoder.withMax,handleConnection_cons List.not_mem_nil,if_neg (by omega)]

theorem code_of_answer {c : ℤ} {e : CodecError} (h : answer json max l=some (.failure c e)) : c = -32700 := by
  unfold answer reading at h
  split at h
  next => cases h
  next =>
    split at h
    next =>
      cases h
      rfl
    next =>
      split at h
      next => cases h
      next =>
        cases h
        rfl

theorem fits_of_uncut (h : Uncut json max stream) : Fits max stream := by
  by_cases ht : (lines newline [] stream).2.length ≤ max
  · have hwhole := handleConnection_short json [] ht
    refine .inl ⟨?_,ht⟩
    intro l hl
    by_contra hlong
    obtain ⟨ys,zs,hcut,hopen⟩ := exists_cut hl (max+1)
    have hlen : (lines newline [] ys).2.length=max+1 := by
      rw [hopen,List.length_take]
      omega
    have heq := h [stream] [ys,zs] (by simp) (by simp [hcut])
    rw [hwhole,handleConnection_long json [zs] (by omega),handleConnection,List.append_nil] at heq
    -- a line is never answered with the code that ends a connection
    obtain ⟨l',-,hans⟩ := List.mem_filterMap.mp (heq ▸ List.mem_singleton_self _)
    exact absurd (code_of_answer hans) (by decide)
  · have hlong : max<(lines newline [] stream).2.length := by omega
    have hwhole := handleConnection_long json [] hlong
    have htail : (lines newline [] stream).2.length=max+1 := by
      obtain ⟨ys,zs,hcut,hopen⟩ := exists_cut_open newline stream (max+1)
      have hlen : (lines newline [] ys).2.length=max+1 := by
        rw [hopen,List.length_take]
        omega
      have heq := h [stream] [ys,zs] (by simp) (by simp [hcut])
      rw [hwhole,handleConnection_long json [zs] (by omega),hlen] at heq
      simpa using heq
    refine .inr ⟨?_,htail⟩
    intro l hl
    constructor
    · obtain ⟨ys,zs,hcut,hopen⟩ := exists_cut_open newline stream 0
      have hzs : (lines newline [] zs).2=(lines newline [] stream).2 := by
        conv_rhs => rw [hcut,lines_append,hopen]
        rfl
      have heq := h [stream] [ys,zs] (by simp) (by simp [hcut])
      have hlast := handleConnection_long json [] (hzs ▸ hlong)
      rw [FrameDecoder.withMax,hzs] at hlast
      rw [hwhole,handleConnection_short json [zs] (by simp [hopen]),hopen,List.take_zero,hlast] at heq
      have hnil := List.self_eq_append_left.mp heq
      rw [List.filterMap_eq_nil_iff] at hnil
      by_contra hblank
      have hans := hnil l hl
      rw [answer,if_neg hblank] at hans
      cases hans
    · by_contra hmore
      obtain ⟨ys,zs,hcut,hopen⟩ := exists_cut hl (max+2)
      have hlen : (lines newline [] ys).2.length=max+2 := by
        rw [hopen,List.length_take]
        omega
      have heq := h [stream] [ys,zs] (by simp) (by simp [hcut])
      rw [hwhole,handleConnection_long json [zs] (by omega),hlen,htail] at heq
      simp at heq

end

/-! ### Frames that were encoded -/

/-- Compact JSON: control characters are escaped, and there is no blank in front. -/
structure Serde.Compact {V : Type} (json : Serde V) : Prop where
  escaped : ∀ v bytes, json.toVec v=.ok bytes → ∀ b ∈ bytes, 32 ≤ b
  starts : ∀ v bytes, json.toVec v=.ok bytes → ∃ b ∈ bytes.head?, b ≠ 32

/-- The value is read from its own text. -/
def Serde.ReadsBack {V : Type} (json : Serde V) (v : V) : Prop :=
  ∃ bytes, json.toVec v=.ok bytes ∧ json.fromSlice bytes=.ok v

section
variable {V : Type} {json : Serde V} {v : V} {bytes piece : List UInt8} {vs : List V} {pieces : List (List UInt8)}

theorem encodeFrame_ok (h : encodeFrame json v=.ok piece) :
    ∃ bytes, json.toVec v=.ok bytes ∧ bytes.length<MAX_FRAME_BYTES ∧ piece=bytes ++ [newline] := by
  unfold encodeFrame at h
  split at h
  next => cases h
  next bytes hbytes =>
    split at h
    next => cases h
    next hlen =>
      cases h
      exact ⟨bytes,hbytes,by omega,rfl⟩

theorem newline_notMem (hjson : json.Compact) (h : json.toVec v=.ok bytes) : newline ∉ bytes := by
  intro hmem
  exact absurd (hjson.escaped v bytes h newline hmem) (by decide)

theorem answer_encoded (hjson : json.Compact) (h : json.toVec v=.ok bytes) (hlen : bytes.length<MAX_FRAME_BYTES) :
    ∃ o, answer json MAX_FRAME_BYTES bytes=some o ∧ (o=.frame v ↔ json.ReadsBack v) := by
  have hstrip : stripCr bytes=bytes := by
    unfold stripCr
    split
    next hlast =>
      exact absurd (hjson.escaped v bytes h 13 (List.mem_of_getLast? hlast)) (by decide)
    next => rfl
  have hblank : ¬Blank bytes := by
    intro hall
    obtain ⟨b,hb,hne⟩ := hjson.starts v bytes h
    have hmem : b ∈ bytes := List.mem_of_mem_head? hb
    rw [Blank,hstrip,List.all_eq_true] at hall
    have hspace := hall b hmem
    have hle := hjson.escaped v bytes h b hmem
    simp only [isAsciiWhitespace,Bool.or_eq_true,decide_eq_true_eq] at hspace
    rcases hspace with (((rfl | rfl) | rfl) | rfl) | rfl
    · exact hne rfl
    all_goals exact absurd hle (by decide)
  refine ⟨_,if_neg hblank,?_⟩
  rw [reading,hstrip,if_neg (by omega)]
  constructor
  · intro heq
    refine ⟨bytes,h,?_⟩
    split at heq
    next hread =>
      cases heq
      exact hread
    next => cases heq
  · rintro ⟨bytes',h',hread⟩
    rw [h] at h'
    cases h'
    rw [hread]

/-- The texts of the frames are the lines of the stream. -/
theorem exists_lines (hjson : json.Compact)
    (h : List.Forall₂ (fun v piece => encodeFrame json v=.ok piece) vs pieces) :
    ∃ ls : List (List UInt8), pieces=ls.map (· ++ [newline]) ∧ (∀ l ∈ ls, newline ∉ l ∧ l.length ≤ MAX_FRAME_BYTES) ∧
      (ls.filterMap (answer json MAX_FRAME_BYTES)=vs.map .frame ↔ ∀ v ∈ vs, json.ReadsBack v) := by
  induction h with
  | nil => exact ⟨[],rfl,by simp,by simp⟩
  | cons hv hvs ih =>
    obtain ⟨ls,rfl,hls,hiff⟩ := ih
    obtain ⟨bytes,hbytes,hlen,rfl⟩ := encodeFrame_ok hv
    obtain ⟨o,ho,hback⟩ := answer_encoded hjson hbytes hlen
    refine ⟨bytes::ls,rfl,?_,?_⟩
    · rw [List.forall_mem_cons]
      exact ⟨⟨newline_notMem hjson hbytes,by omega⟩,hls⟩
    · rw [List.filterMap_cons_some ho,List.map_cons,List.cons_eq_cons,hback,hiff,List.forall_mem_cons]

/-- The cuts make no difference if and only if nothing is too long, but for a tail after blank lines; and
what was encoded is decoded if and only if `serde_json` reads back what it writes. -/
theorem decoding_iff (json : Serde V) (hjson : json.Compact) (max : ℕ) (stream : List UInt8)
    (hvs : List.Forall₂ (fun v piece => encodeFrame json v=.ok piece) vs pieces) :
    (Uncut json max stream ↔ Fits max stream) ∧
      ((∀ chunks : List (List UInt8), chunks.flatten=pieces.flatten →
        handleConnection json .new chunks=vs.map .frame) ↔ ∀ v ∈ vs, json.ReadsBack v) := by
  refine ⟨⟨fits_of_uncut,uncut_of_fits⟩,?_⟩
  obtain ⟨ls,rfl,hls,hiff⟩ := exists_lines hjson hvs
  have hlines : lines newline [] (ls.map (· ++ [newline])).flatten=(ls,[]) := by
    have h : lines newline [] ((ls.map (· ++ [newline])).flatten ++ [])=_ :=
      lines_closed fun l hl => (hls l hl).1
    simpa using h
  have hrun : ∀ chunks : List (List UInt8), chunks.flatten=(ls.map (· ++ [newline])).flatten →
      handleConnection json .new chunks=ls.filterMap (answer json MAX_FRAME_BYTES) := by
    intro chunks hchunks
    rw [FrameDecoder.new,handleConnection_fits List.not_mem_nil]
    all_goals rw [hchunks,hlines]
    · exact fun l hl => (hls l hl).2
    · exact Nat.zero_le _
  rw [← hiff]
  constructor
  · intro hall
    rw [← hrun _ rfl]
    exact hall _ rfl
  · intro heq chunks hchunks
    rw [hrun chunks hchunks,heq]

end

/-- `serde_json` on the two booleans. -/
def booleans : Serde Bool where
  toVec b := .ok (if b then [116,114,117,101] else [102,97,108,115,101])
  fromSlice bytes :=
    if bytes=[116,114,117,101] then .ok true
    else if bytes=[102,97,108,115,101] then .ok false
    else .error "expected value at line 1 column 1"

theorem booleans_compact : booleans.Compact where
  escaped := by
    intro v bytes h
    cases h
    cases v <;> simp
  starts := by
    intro v bytes h
    cases h
    cases v
    · exact ⟨102,rfl,by decide⟩
    · exact ⟨116,rfl,by decide⟩

/-- A line that is too long by one byte, and a frame behind it. -/
def longLine : List UInt8 := List.replicate (MAX_FRAME_BYTES+1) 97 ++ newline::[116,114,117,101,10]

theorem longLine_cut : ¬Uncut booleans MAX_FRAME_BYTES longLine := by
  intro h
  have hline : newline ∉ List.replicate (MAX_FRAME_BYTES+1) (97 : UInt8) := by
    intro hmem
    exact absurd (List.eq_of_mem_replicate hmem) (by decide)
  have hlines : lines newline [] longLine=([List.replicate (MAX_FRAME_BYTES+1) 97,[116,114,117,101]],[]) := by
    rw [longLine,lines_line hline]
    rfl
  rcases fits_of_uncut h with ⟨hl,-⟩ | ⟨-,ht⟩
  · rw [hlines] at hl
    have hlen := hl _ List.mem_cons_self
    rw [List.length_replicate] at hlen
    omega
  · rw [hlines] at ht
    cases ht

theorem decoding_iff_booleans : booleans.Compact ∧
    (Uncut booleans 64 [116,114,117,101,10] ↔ Fits 64 [116,114,117,101,10]) ∧
      ((∀ chunks : List (List UInt8), chunks.flatten=[[116,114,117,101,10],[102,97,108,115,101,10]].flatten →
        handleConnection booleans .new chunks=[true,false].map .frame) ↔ ∀ v ∈ [true,false], booleans.ReadsBack v) :=
  ⟨booleans_compact,decoding_iff booleans booleans_compact 64 [116,114,117,101,10]
    (.cons rfl (.cons rfl .nil))⟩

end TradeGate.Rpc
