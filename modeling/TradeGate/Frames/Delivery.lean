import TradeGate.Frames.Lines
import TradeGate.Js.Compact
import TradeGate.Model.Frames

/-! What the gateway gets of a stream of bytes.  `push` gives its frames out together, so that a line that
cannot be taken loses those that came before it in the same chunk. -/
namespace TradeGate.Ndjson
open Js Frames

section
variable {max : ℕ} {p l buffer rest chunk stream t : List UInt8} {chunks : List (List UInt8)}
  {ls : List (List UInt8)} {e : DecodeError}

/-- One line: a frame, or nothing, or a failure. -/
def reading (max : ℕ) (line : List UInt8) : Except DecodeError (Option Value) :=
  if max<line.length then .error (.frameTooLarge line.length max)
  else if strip (Utf8.decode line)=[] then .ok none
  else match Json.parse (Utf8.decode line) with
    | none => .error .syntaxError
    | some frame => .ok (some frame)

/-- Lines one after the other; the first failure is all that is left of them. -/
def readAll (max : ℕ) : List (List UInt8) → Except DecodeError (List Value)
  | [] => .ok []
  | l::ls =>
    match reading max l with
    | .error e => .error e
    | .ok frame => (readAll max ls).map (frame.toList ++ ·)

theorem takeFrames_open (h : newline ∉ buffer) : takeFrames max buffer=.ok ([],buffer) := by
  have hnil : buffer.dropWhile (fun b => b ≠ newline)=[] := by
    rw [List.dropWhile_eq_nil_iff]
    intro b hb
    simpa using fun hbn : b=newline => h (hbn ▸ hb)
  rw [takeFrames]
  split
  next => rfl
  next heq =>
    rw [hnil] at heq
    cases heq

theorem takeFrames_line (hl : newline ∉ l) : takeFrames max (l ++ newline::rest)=
    match reading max l with
    | .error e => .error e
    | .ok frame => (takeFrames max rest).map fun q => (frame.toList ++ q.1,q.2) := by
  rw [takeFrames]
  split
  next heq =>
    rw [dropWhile_line hl] at heq
    cases heq
  next heq =>
    rw [dropWhile_line hl] at heq
    cases heq
    dsimp only
    rw [takeWhile_line hl]
    unfold reading
    split
    next => rfl
    next =>
      split
      next => cases takeFrames max rest <;> rfl
      next => cases Json.parse (Utf8.decode l) <;> rfl

theorem takeFrames_eq (buffer : List UInt8) : takeFrames max buffer=
    (readAll max (lines newline [] buffer).1).map fun frames => (frames,(lines newline [] buffer).2) := by
  generalize hls : (lines newline [] buffer).1=ls
  induction ls generalizing buffer with
  | nil =>
    have hopen := notMem_of_lines_nil hls
    rw [takeFrames_open hopen,lines_of_notMem hopen]
    rfl
  | cons l ls ih =>
    obtain ⟨rest,rfl,hl,hrest⟩ := exists_of_lines_cons (Prod.ext hls rfl)
    rw [takeFrames_line hl,ih rest (congrArg Prod.fst hrest),readAll,hrest]
    cases reading max l with
    | error e => rfl
    | ok frame => cases readAll max ls <;> rfl

/-- What one more chunk does. -/
theorem deliver_cons (h : newline ∉ p) : deliver ⟨p,max⟩ (chunk::chunks)=
    match readAll max (lines newline p chunk).1 with
    | .error e => ([],some e)
    | .ok frames =>
      if max<(lines newline p chunk).2.length then
        ([],some (.frameTooLarge (lines newline p chunk).2.length max))
      else (frames ++ (deliver ⟨(lines newline p chunk).2,max⟩ chunks).1,
        (deliver ⟨(lines newline p chunk).2,max⟩ chunks).2) := by
  rw [deliver,NdjsonDecoder.push]
  dsimp only
  rw [takeFrames_eq,lines_open h]
  cases readAll max (lines newline p chunk).1 with
  | error e => rfl
  | ok frames =>
    dsimp only [Except.map]
    by_cases hlong : max<(lines newline p chunk).2.length
    · rw [if_pos hlong,if_pos hlong]
    · rw [if_neg hlong,if_neg hlong]

/-! ### Before the first failure -/

/-- The frames of the lines before the first failure, and whether there is one; a tail that is too long is
one as well. -/
def untilFailure (max : ℕ) : List (List UInt8) → List UInt8 → List Value × Bool
  | [], t => ([],max<t.length)
  | l::ls, t =>
    match reading max l with
    | .error _ => ([],true)
    | .ok frame => (frame.toList ++ (untilFailure max ls t).1,(untilFailure max ls t).2)

/-- The frames of a stream up to its first failure. -/
def framesBefore (max : ℕ) (stream : List UInt8) : List Value :=
  (untilFailure max (lines newline [] stream).1 (lines newline [] stream).2).1

/-- A line of the stream or its tail is too long, or a line is not JSON. -/
def Fails (max : ℕ) (stream : List UInt8) : Prop :=
  (untilFailure max (lines newline [] stream).1 (lines newline [] stream).2).2=true

theorem untilFailure_append {frames : List Value} (ls' : List (List UInt8)) (t : List UInt8)
    (h : readAll max ls=.ok frames) :
    untilFailure max (ls ++ ls') t=(frames ++ (untilFailure max ls' t).1,(untilFailure max ls' t).2) := by
  induction ls generalizing frames with
  | nil =>
    cases h
    rfl
  | cons l ls ih =>
    rw [readAll] at h
    rw [List.cons_append,untilFailure]
    cases hr : reading max l with
    | error e =>
      rw [hr] at h
      cases h
    | ok frame =>
      rw [hr] at h
      cases hall : readAll max ls with
      | error e =>
        rw [hall] at h
        cases h
      | ok fs =>
        rw [hall] at h
        cases h
        dsimp only
        rw [ih hall,List.append_assoc]

/-- Without a failure every line is read, and nothing is too long. -/
theorem untilFailure_sound {ls' : List (List UInt8)} (h : (untilFailure max (ls ++ ls') t).2=false) :
    (∃ frames, readAll max ls=.ok frames) ∧ (∀ l ∈ ls ++ ls', l.length ≤ max) ∧ t.length ≤ max := by
  have hline : ∀ {l frame}, reading max l=.ok frame → l.length ≤ max := by
    intro l frame hr
    by_contra hlong
    rw [reading,if_pos (by omega)] at hr
    cases hr
  induction ls with
  | nil =>
    refine ⟨⟨[],rfl⟩,?_⟩
    rw [List.nil_append] at h ⊢
    induction ls' with
    | nil => simpa [untilFailure] using h
    | cons l ls' ih =>
      rw [untilFailure] at h
      cases hr : reading max l with
      | error e =>
        rw [hr] at h
        cases h
      | ok frame =>
        rw [hr] at h
        rw [List.forall_mem_cons]
        exact ⟨⟨hline hr,(ih h).1⟩,(ih h).2⟩
  | cons l ls ih =>
    rw [List.cons_append,untilFailure] at h
    cases hr : reading max l with
    | error e =>
      rw [hr] at h
      cases h
    | ok frame =>
      rw [hr] at h
      obtain ⟨⟨frames,hframes⟩,hall,ht⟩ := ih h
      rw [List.cons_append,List.forall_mem_cons]
      refine ⟨⟨frame.toList ++ frames,?_⟩,⟨hline hr,hall⟩,ht⟩
      rw [readAll,hr,hframes]
      rfl

/-- Whatever the cuts, nothing but frames before the first failure is delivered. -/
theorem deliver_prefix (h : newline ∉ p) : (deliver ⟨p,max⟩ chunks).1 <+:
    (untilFailure max (lines newline p chunks.flatten).1 (lines newline p chunks.flatten).2).1 := by
  induction chunks generalizing p with
  | nil => exact List.nil_prefix
  | cons chunk chunks ih =>
    rw [deliver_cons h,List.flatten_cons,lines_append]
    split
    next => exact List.nil_prefix
    next frames hframes =>
      split
      next => exact List.nil_prefix
      next =>
        rw [untilFailure_append _ _ hframes]
        exact List.prefix_append_right_inj _ |>.mpr (ih (notMem_open h))

/-- Without a failure every frame is delivered, and the socket stays. -/
theorem deliver_sound (h : newline ∉ p) (hs : (untilFailure max (lines newline p chunks.flatten).1
      (lines newline p chunks.flatten).2).2=false) :
    deliver ⟨p,max⟩ chunks =
      ((untilFailure max (lines newline p chunks.flatten).1 (lines newline p chunks.flatten).2).1,none) := by
  induction chunks generalizing p with
  | nil => rfl
  | cons chunk chunks ih =>
    rw [List.flatten_cons,lines_append] at hs ⊢
    obtain ⟨⟨frames,hframes⟩,hall,ht⟩ := untilFailure_sound hs
    have hopen : (lines newline p chunk).2.length ≤ max := by
      refine length_open_le chunk chunks.flatten ?_ ?_ <;> rw [lines_append]
      · exact hall
      · exact ht
    rw [untilFailure_append _ _ hframes] at hs ⊢
    rw [deliver_cons h,hframes]
    dsimp only
    rw [if_neg (by omega),ih (notMem_open h) hs]

/-- When every line comes in a chunk of its own, what stands before the first failure is delivered. -/
theorem deliver_lines (hls : ∀ l ∈ ls, newline ∉ l) (ht : newline ∉ t) :
    (deliver ⟨[],max⟩ (ls.map (· ++ [newline]) ++ [t])).1=(untilFailure max ls t).1 := by
  induction ls with
  | nil =>
    rw [List.map_nil,List.nil_append,deliver_cons List.not_mem_nil,lines_of_notMem ht]
    dsimp only [readAll]
    split <;> rfl
  | cons l ls ih =>
    obtain ⟨hl,hls⟩ := List.forall_mem_cons.mp hls
    have hline : lines newline [] (l ++ [newline])=([l],[]) := lines_line hl
    rw [List.map_cons,List.cons_append,deliver_cons List.not_mem_nil,hline,untilFailure,readAll]
    cases reading max l with
    | error e => rfl
    | ok frame =>
      dsimp only [readAll,Except.map]
      rw [if_neg (by simp),ih hls,List.append_nil]

/-- When the whole stream comes in one chunk, a failure leaves nothing. -/
theorem deliver_whole (h : Fails max stream) : (deliver ⟨[],max⟩ [stream]).1=[] := by
  rw [deliver_cons List.not_mem_nil]
  cases hall : readAll max (lines newline [] stream).1 with
  | error e => rfl
  | ok frames =>
    have happ := untilFailure_append [] (lines newline [] stream).2 hall
    rw [List.append_nil] at happ
    rw [Fails,happ] at h
    exact congrArg Prod.fst (if_pos (of_decide_eq_true h))

/-- The cuts make no difference to the frames. -/
def Uncut (max : ℕ) (stream : List UInt8) : Prop :=
  ∀ chunks chunks' : List (List UInt8), chunks.flatten=stream → chunks'.flatten=stream →
    (deliver ⟨[],max⟩ chunks).1=(deliver ⟨[],max⟩ chunks').1

/-- Every frame before the first failure is delivered. -/
def Complete (max : ℕ) (stream : List UInt8) : Prop :=
  ∀ chunks : List (List UInt8), chunks.flatten=stream → (deliver ⟨[],max⟩ chunks).1=framesBefore max stream

theorem exists_lines (max : ℕ) (stream : List UInt8) :
    ∃ chunks, chunks.flatten=stream ∧ (deliver ⟨[],max⟩ chunks).1=framesBefore max stream := by
  refine ⟨_,?_,deliver_lines (fun l hl => notMem_line List.not_mem_nil hl) (notMem_open List.not_mem_nil)⟩
  rw [List.flatten_append,List.flatten_singleton]
  exact (lines_flatten [] stream).symm

theorem complete_of_uncut (h : Uncut max stream) : Complete max stream := by
  obtain ⟨chunks',hc',hd⟩ := exists_lines max stream
  intro chunks hc
  rw [h chunks chunks' hc hc',hd]

/-- Nothing is lost if and only if there is no failure, or no frame before it. -/
theorem complete_iff : Complete max stream ↔ ¬Fails max stream ∨ framesBefore max stream=[] := by
  constructor
  · intro h
    by_cases hf : Fails max stream
    · right
      rw [← h [stream] (by simp),deliver_whole hf]
    · exact .inl hf
  · rintro (hf | hnil) chunks rfl
    · exact congrArg Prod.fst (deliver_sound List.not_mem_nil (by simpa [Fails] using hf))
    · rw [hnil]
      exact List.prefix_nil.mp (hnil ▸ deliver_prefix List.not_mem_nil)

theorem uncut_iff : Uncut max stream ↔ ¬Fails max stream ∨ framesBefore max stream=[] := by
  rw [← complete_iff]
  constructor
  · exact complete_of_uncut
  · intro h chunks chunks' hc hc'
    rw [h chunks hc,h chunks' hc']

/-! ### Frames that were written -/

/-- The bytes of a frame, without the newline. -/
def encodeLine (obj : Value) : List UInt8 := Utf8.encode (Json.stringify [] obj)

theorem encodeFrame_eq (obj : Value) : encodeFrame obj=encodeLine obj ++ [newline] := by
  rw [encodeFrame,Utf8.encode,List.flatMap_append]
  rfl

theorem notMem_encodeLine {obj : Value} (h : Json.Proper obj) : newline ∉ encodeLine obj := by
  intro hmem
  have hchar : Char.ofNat 10 ∈ Json.stringify [] obj := Utf8.mem_of_mem_encode (by decide) hmem
  exact absurd (Json.plain_stringify h _ hchar) (by decide)

/-- A written line that fits is read. -/
theorem reading_encodeLine {obj : Value} (h : Json.Proper obj) (hfit : (encodeLine obj).length ≤ max) :
    reading max (encodeLine obj)=.ok (some obj) := by
  obtain ⟨c,cs,hcs,hc,-⟩ : ∃ c cs, Json.stringify [] obj=c::cs ∧ Js.isSpace c=false ∧ c ≠ ']' := Json.write_head h
  have hstrip : strip (Json.stringify [] obj) ≠ [] := by
    rw [hcs,strip,List.dropWhile_cons_of_neg (by simp [hc]),Ne,List.reverse_eq_nil_iff,List.dropWhile_eq_nil_iff]
    intro hall
    rw [hall c (by simp)] at hc
    cases hc
  rw [reading,if_neg (by omega),encodeLine,Utf8.decode_encode,if_neg hstrip,
    Json.parse_stringify (List.forall_mem_nil _) h]

/-- Of written frames those before the first one that is too long are read. -/
theorem untilFailure_encode {objs : List Value} (h : ∀ obj ∈ objs, Json.Proper obj) :
    untilFailure max (objs.map encodeLine) []=
      (objs.takeWhile fun obj => (encodeLine obj).length ≤ max,decide (∃ obj ∈ objs, max<(encodeLine obj).length)) := by
  induction objs with
  | nil => simp [untilFailure]
  | cons obj objs ih =>
    obtain ⟨hobj,hobjs⟩ := List.forall_mem_cons.mp h
    rw [List.map_cons,untilFailure]
    by_cases hfit : (encodeLine obj).length ≤ max
    · rw [reading_encodeLine hobj hfit,ih hobjs,List.takeWhile_cons_of_pos (by simpa using hfit)]
      simp [Nat.not_lt.mpr hfit]
    · rw [reading,if_pos (by omega),List.takeWhile_cons_of_neg (by simpa using hfit)]
      simp [Nat.lt_of_not_le hfit]

/-- The bytes of frames that are written one after the other. -/
def encodeAll (objs : List Value) : List UInt8 := (objs.map encodeFrame).flatten

theorem lines_encodeAll {objs : List Value} (h : ∀ obj ∈ objs, Json.Proper obj) :
    lines newline [] (encodeAll objs)=(objs.map encodeLine,[]) := by
  have hclosed : ∀ l ∈ objs.map encodeLine, newline ∉ l := by
    intro l hl
    obtain ⟨obj,hobj,rfl⟩ := List.mem_map.mp hl
    exact notMem_encodeLine (h obj hobj)
  have hbytes : encodeAll objs=((objs.map encodeLine).map (· ++ [newline])).flatten ++ [] := by
    rw [encodeAll,List.map_map,List.append_nil]
    exact congrArg List.flatten (List.map_congr_left fun obj _ => encodeFrame_eq obj)
  rw [hbytes,lines_closed hclosed,lines_nil,List.append_nil]

/-- Decoding inverts the encoding, whatever the cuts, if and only if every frame fits. -/
theorem inverts_iff {objs : List Value} (h : ∀ obj ∈ objs, Json.Proper obj) :
    (∀ chunks : List (List UInt8), chunks.flatten=encodeAll objs → deliver ⟨[],max⟩ chunks=(objs,none)) ↔
      ∀ obj ∈ objs, (encodeFrame obj).length ≤ max+1 := by
  have hfit : ∀ obj, (encodeFrame obj).length ≤ max+1 ↔ (encodeLine obj).length ≤ max := by
    intro obj
    rw [encodeFrame_eq,List.length_append,List.length_singleton]
    omega
  have hread : untilFailure max (objs.map encodeLine) []=_ := untilFailure_encode h
  simp only [hfit]
  constructor
  · intro hinv
    obtain ⟨chunks,hc,hd⟩ := exists_lines max (encodeAll objs)
    rw [hinv chunks hc,framesBefore,lines_encodeAll h,hread] at hd
    change objs=objs.takeWhile _ at hd
    intro obj hobj
    rw [hd] at hobj
    simpa using List.mem_takeWhile_imp hobj
  · intro hall chunks hc
    have hlines := lines_encodeAll h
    have htake : objs.takeWhile (fun obj => (encodeLine obj).length ≤ max)=objs :=
      List.takeWhile_eq_self_iff.mpr fun obj hobj => by simpa using hall obj hobj
    have hnone : ¬∃ obj ∈ objs, max<(encodeLine obj).length := by
      rintro ⟨obj,hobj,hlong⟩
      have hle := hall obj hobj
      omega
    rw [htake,decide_eq_false hnone] at hread
    rw [← hc] at hlines
    rw [deliver_sound List.not_mem_nil] <;> rw [hlines,hread]

end

/-- Frames that are given do not depend on the cuts, and none of them is lost, if and only if no line is
bad or no frame stands before it; what was written is read back if and only if every frame fits. -/
theorem decodes_iff (max : ℕ) :
    (∀ stream, (Uncut max stream ↔ ¬Fails max stream ∨ framesBefore max stream=[]) ∧
      (Complete max stream ↔ ¬Fails max stream ∨ framesBefore max stream=[])) ∧
    ∀ objs : List {v : Value // Json.Proper v},
      (∀ chunks : List (List UInt8), chunks.flatten=encodeAll (objs.map Subtype.val) →
        deliver ⟨[],max⟩ chunks=(objs.map Subtype.val,none)) ↔
      ∀ obj ∈ objs, (encodeFrame obj.val).length ≤ max+1 := by
  refine ⟨fun stream => ⟨uncut_iff,complete_iff⟩,fun objs => ?_⟩
  · rw [inverts_iff]
    · simp
    · simp +contextual

/-- An empty object and a line that is not JSON, in two chunks and in one. -/
theorem lost_before_bad_line :
    deliver {} [[123,125,10],[120,10]]=([.obj []],some .syntaxError) ∧
      deliver {} [[123,125,10,120,10]]=([],some .syntaxError) ∧
      ¬Uncut DEFAULT_MAX_FRAME_BYTES [123,125,10,120,10] ∧
      ¬Complete DEFAULT_MAX_FRAME_BYTES [123,125,10,120,10] := by
  have htwo : deliver {} [[123,125,10],[120,10]]=([.obj []],some .syntaxError) := by
    have hbad : deliver {} [[120,10]]=([],some .syntaxError) := deliver_cons List.not_mem_nil
    refine (deliver_cons List.not_mem_nil).trans ?_
    change ([.obj []] ++ (deliver {} [[120,10]]).1,(deliver {} [[120,10]]).2)=_
    rw [hbad]
    rfl
  have hone : deliver {} [[123,125,10,120,10]]=([],some .syntaxError) := deliver_cons List.not_mem_nil
  have huncut : ¬Uncut DEFAULT_MAX_FRAME_BYTES [123,125,10,120,10] := by
    intro h
    have heq : (deliver {} [[123,125,10],[120,10]]).1=(deliver {} [[123,125,10,120,10]]).1 := h _ _ rfl rfl
    rw [htwo,hone] at heq
    cases heq
  refine ⟨htwo,hone,huncut,fun h => huncut ?_⟩
  exact uncut_iff.mpr (complete_iff.mp h)

end TradeGate.Ndjson
