import TradeGate.Model.Answers

/-! Answers between texts without braces: the last of them is found as long as no text before an answer leaves a
quotation open. -/
namespace TradeGate.AgentMcpBackend
open Js

/-- An object as `JSON.stringify` writes it. -/
structure Answer where
  fields : List (String × Value)
  gap : List Char
  proper : Json.Proper (.obj fields)
  spaces : Json.Spaces gap

def Answer.chars (a : Answer) : List Char := Json.stringify a.gap (.obj a.fields)

/-- Texts, each with the answer after it, and a text at the end. -/
def transcript (ps : List (String × Answer)) (rest : String) : String :=
  String.join (ps.map fun p => p.1 ++ String.ofList p.2.chars) ++ rest

def NoBrace (cs : List Char) : Prop := ∀ c ∈ cs, c ≠ '\x7b' ∧ c ≠ '\x7d'

/-- What only the quotes of a text do to a reader. -/
def quoted (inStr esc : Bool) (cs : List Char) : Reader Unit :=
  Reader.run (fun u _ => u) (fun u _ => u) 0 cs ⟨inStr,esc,()⟩

/-- Read from outside of strings, the text ends outside of them. -/
def Closes (text : String) : Prop := (quoted false false text.toList).inStr=false

instance (text : String) : Decidable (Closes text) := inferInstanceAs (Decidable (_=_))

/-! Texts without braces. -/
section
variable {τ : Type} {opened closed : τ → ℕ → τ} {cs : List Char} {b e : Bool} {t : τ}

theorem next_noBrace {c : Char} (h : c ≠ '\x7b' ∧ c ≠ '\x7d') (i j : ℕ) : Reader.next opened closed ⟨b,e,t⟩ i c =
    ⟨(Reader.next (fun u _ => u) (fun u _ => u) ⟨b,e,()⟩ j c).inStr,
      (Reader.next (fun u _ => u) (fun u _ => u) ⟨b,e,()⟩ j c).esc,t⟩ := by
  unfold Reader.next
  dsimp only
  rw [if_neg h.1,if_neg h.2,if_neg h.1,if_neg h.2]
  split_ifs <;> rfl

/-- Only the strings of such a text are followed. -/
theorem run_noBrace (h : NoBrace cs) (i : ℕ) : Reader.run opened closed i cs ⟨b,e,t⟩ =
    ⟨(quoted b e cs).inStr,(quoted b e cs).esc,t⟩ := by
  have hrun : ∀ j, Reader.run opened closed i cs ⟨b,e,t⟩ =
      ⟨(Reader.run (fun u _ => u) (fun u _ => u) j cs ⟨b,e,()⟩).inStr,
        (Reader.run (fun u _ => u) (fun u _ => u) j cs ⟨b,e,()⟩).esc,t⟩ := by
    induction cs generalizing b e i with
    | nil => exact fun _ => rfl
    | cons c cs ih =>
      intro j
      obtain ⟨hc,hcs⟩ := List.forall_mem_cons.mp h
      rw [Reader.run,Reader.run,next_noBrace hc i j]
      exact ih hcs (i+1) (j+1)
  exact hrun 0

/-- Nothing is escaped outside of strings. -/
theorem inStr_of_esc (he : e=true → b=true) (h : (quoted b e cs).esc=true) : (quoted b e cs).inStr=true := by
  have hrun : ∀ (i : ℕ) (r : Reader Unit), (r.esc=true → r.inStr=true) →
      (Reader.run (fun u _ => u) (fun u _ => u) i cs r).esc=true →
        (Reader.run (fun u _ => u) (fun u _ => u) i cs r).inStr=true := by
    clear h
    induction cs with
    | nil => exact fun _ r hr => hr
    | cons c cs ih =>
      intro i r hr
      apply ih
      unfold Reader.next
      split_ifs <;> simp_all
  exact hrun 0 ⟨b,e,()⟩ he h

theorem esc_of_outside (he : e=true → b=true) (h : (quoted b e cs).inStr=false) : (quoted b e cs).esc=false := by
  rw [← Bool.not_eq_true] at h ⊢
  exact fun hesc => h (inStr_of_esc he hesc)

end

/-! Objects, read from outside of strings. -/
section
variable {text before after : List Char} {best : Option Value}

/-- The reader stands within braces. -/
def Spans.Within (s : Spans) : Prop := 0 < s.depth

theorem Spans.within_opened (s : Spans) (i : ℕ) : (s.opened i).Within := Nat.succ_pos _

theorem Spans.closed_opened {s : Spans} (h : s.Within) (i j : ℕ) : (s.opened i).closed text j=s := by
  have hdepth : s.depth ≠ 0 := Nat.pos_iff_ne_zero.mp h
  obtain ⟨depth,openedAt,best⟩ := s
  change depth ≠ 0 at hdepth
  unfold closed opened
  dsimp only
  rw [if_neg (by omega),if_neg hdepth,Nat.add_sub_cancel]

theorem closed_quiet (text : List Char) : Json.Closed (Reader.Quiet Spans.opened (Spans.closed text) Spans.Within) where
  nil := fun _ _ _ => rfl
  append := Reader.quiet_append
  char := Reader.quiet_char
  string := Reader.quiet_string
  object := Reader.quiet_braces (fun s i _ => s.within_opened i) fun _ i j h => Spans.closed_opened h i j

theorem asObject_slice {cs : List Char} (h : text=before ++ (cs ++ after)) :
    asObject text before.length (before.length+cs.length)=(Json.parse cs).filter isObject := by
  unfold asObject
  rw [h,List.take_length_add_append,List.drop_left,List.take_left]

theorem asObject_stringify (a : Answer) (h : text=before ++ (a.chars ++ after)) :
    asObject text before.length (before.length+a.chars.length)=some (.obj a.fields) := by
  rw [asObject_slice h,Answer.chars,Json.parse_stringify a.spaces a.proper]
  rfl

/-- An answer between outermost braces is the one that is kept. -/
theorem run_answer (best : Option Value) (a : Answer) (h : text=before ++ (a.chars ++ after)) :
    Reader.run Spans.opened (Spans.closed text) before.length a.chars ⟨false,false,⟨0,none,best⟩⟩ =
      ⟨false,false,⟨0,none,some (.obj a.fields)⟩⟩ := by
  have hobject := asObject_stringify a h
  obtain ⟨cs,hcs,hquiet⟩ := (closed_quiet text).stringify_obj a.spaces a.proper
  change a.chars=_ at hcs
  rw [hcs] at hobject ⊢
  have hwithin : Spans.Within ⟨1,some before.length,best⟩ := Nat.one_pos
  change Reader.run Spans.opened (Spans.closed text) (before.length+1) _ ⟨false,false,⟨1,some before.length,best⟩⟩=_
  rw [Reader.run_append,hquiet _ _ hwithin]
  change Reader.mk false false (Spans.closed text ⟨1,some before.length,best⟩ (before.length+1+cs.length))=_
  unfold Spans.closed
  rw [if_pos (Nat.le_refl 1)]
  dsimp only [Option.bind_some]
  rw [show before.length+1+cs.length+1=before.length+('\x7b' :: (cs ++ ['\x7d'])).length by
    rw [List.length_cons,List.length_append,List.length_singleton]; omega,hobject]
  rfl

end

/-! Transcripts. -/
section
variable {text before after : List Char} {best : Option Value} {ps : List (String × Answer)}

def body (ps : List (String × Answer)) : List Char := ps.flatMap fun p => p.1.toList ++ p.2.chars

theorem transcript_toList (ps : List (String × Answer)) (rest : String) :
    (transcript ps rest).toList=body ps ++ rest.toList := by
  unfold transcript body
  rw [String.toList_append,String.toList_join,List.flatMap_map]
  simp only [String.toList_append,String.toList_ofList]

/-- After texts that close, the last answer is the one that is kept. -/
theorem run_body (before : List Char) (best : Option Value) (hb : ∀ p ∈ ps, NoBrace p.1.toList) (hc : ∀ p ∈ ps, Closes p.1)
    (h : text=before ++ (body ps ++ after)) :
    Reader.run Spans.opened (Spans.closed text) before.length (body ps) ⟨false,false,⟨0,none,best⟩⟩ =
      ⟨false,false,⟨0,none,(ps.getLast?.map fun p => .obj p.2.fields).or best⟩⟩ := by
  induction ps generalizing before best with
  | nil => rfl
  | cons p ps ih =>
    obtain ⟨hb,hbs⟩ := List.forall_mem_cons.mp hb
    obtain ⟨hc,hcs⟩ := List.forall_mem_cons.mp hc
    have hesc := esc_of_outside (by decide) hc
    have hbody : body (p::ps)=p.1.toList ++ (p.2.chars ++ body ps) := by
      rw [body,List.flatMap_cons,List.append_assoc]
      rfl
    rw [hbody] at h ⊢
    have htext : text=(before ++ p.1.toList) ++ (p.2.chars ++ (body ps ++ after)) := by
      rw [h]
      simp only [List.append_assoc]
    have hrest : text=(before ++ p.1.toList ++ p.2.chars) ++ (body ps ++ after) := by
      rw [htext,List.append_assoc _ p.2.chars]
    have hanswer := run_answer best p.2 htext
    have htail := ih _ (some (.obj p.2.fields)) hbs hcs hrest
    rw [List.length_append] at hanswer htail
    rw [List.length_append] at htail
    rw [Reader.run_append,run_noBrace hb,hc,hesc,Reader.run_append,hanswer,htail]
    cases ps with
    | nil => rfl
    | cons q ps =>
      rw [List.getLast?_cons_cons]
      cases hlast : (q::ps).getLast? with
      | none => cases List.getLast?_eq_none_iff.mp hlast
      | some r => rfl

/-- An object with braces in a string. -/
def braced (inside : String) : Answer where
  fields := [("a",.str inside)]
  gap := []
  proper := ⟨List.nodup_singleton _,trivial,trivial⟩
  spaces := List.forall_mem_nil _

theorem chars_braced :
    (braced "\x7b\x7d").chars=['\x7b','"','a','"',':','"','\x7b','\x7d','"','\x7d'] ∧
    (braced "\x7b\x7d\x7b").chars=['\x7b','"','a','"',':','"','\x7b','\x7d','\x7b','"','\x7d'] := by
  decide +kernel

/-- Within braces such an object passes unnoticed, wherever its quotes are taken to begin. -/
theorem run_pair_within {b e : Bool} (he : e=true → b=true) {s : Spans} (hs : s.Within) (i : ℕ) :
    Reader.run Spans.opened (Spans.closed text) i (braced "\x7b\x7d").chars ⟨b,e,s⟩=⟨b,false,s⟩ := by
  cases b with
  | true =>
    rw [chars_braced.1]
    have hstep : Reader.run Spans.opened (Spans.closed text) i
        ['\x7b','"','a','"',':','"','\x7b','\x7d','"','\x7d'] ⟨true,e,s⟩ =
          ⟨true,false,(s.opened (i+6)).closed text (i+7)⟩ := by
      cases e <;> rfl
    rw [hstep,Spans.closed_opened hs]
  | false =>
    have hesc : e=false := by
      cases e with
      | true => exact absurd (he rfl) (by decide)
      | false => rfl
    rw [hesc]
    obtain ⟨cs,hcs,hquiet⟩ := (closed_quiet text).stringify_obj (braced "\x7b\x7d").spaces (braced "\x7b\x7d").proper
    change (braced "\x7b\x7d").chars=_ at hcs
    rw [hcs]
    exact Reader.quiet_braces (fun s i _ => s.within_opened i) (fun _ i j h => Spans.closed_opened h i j) hquiet i s hs

/-- Read from within a string the braces of its string are outermost ones. -/
theorem run_inverted (best : Option Value) {e : Bool} {inside : String} (hinside : inside="\x7b\x7d" ∨ inside="\x7b\x7d\x7b")
    (h : text=before ++ ((braced inside).chars ++ after)) : ∃ s : Spans, s.best=some (.obj []) ∧
      (inside="\x7b\x7d\x7b" → s.Within) ∧
      Reader.run Spans.opened (Spans.closed text) before.length (braced inside).chars ⟨true,e,⟨0,none,best⟩⟩ =
        ⟨true,false,s⟩ := by
  have hobject : ∀ rest, text=before ++ (['\x7b','"','a','"',':','"','\x7b','\x7d'] ++ rest) →
      asObject text (before.length+6) (before.length+7+1)=some (.obj []) := by
    intro rest htext
    have hsplit : text=(before ++ ['\x7b','"','a','"',':','"']) ++ (['\x7b','\x7d'] ++ rest) := by
      rw [htext,List.append_assoc]
      rfl
    have hslice := asObject_slice hsplit
    rw [List.length_append] at hslice
    exact hslice.trans (by decide +kernel)
  have hclosed : asObject text (before.length+6) (before.length+7+1)=some (.obj []) →
      ((Spans.mk 0 none best).opened (before.length+6)).closed text (before.length+7)=⟨0,none,some (.obj [])⟩ := by
    intro hfound
    change Spans.mk 0 none ((asObject text (before.length+6) (before.length+7+1)).or best)=_
    rw [hfound]
    rfl
  cases hinside with
  | inl hpair =>
    subst hpair
    rw [chars_braced.1] at h ⊢
    refine ⟨⟨0,none,some (.obj [])⟩,rfl,fun hne => absurd hne (by decide),?_⟩
    rw [← hclosed (hobject _ h)]
    cases e <;> rfl
  | inr hopen =>
    subst hopen
    rw [chars_braced.2] at h ⊢
    refine ⟨⟨1,some (before.length+8),some (.obj [])⟩,rfl,fun _ => Nat.one_pos,?_⟩
    have hstep : Reader.run Spans.opened (Spans.closed text) before.length
        ['\x7b','"','a','"',':','"','\x7b','\x7d','\x7b','"','\x7d'] ⟨true,e,⟨0,none,best⟩⟩ =
          ⟨true,false,(((Spans.mk 0 none best).opened (before.length+6)).closed text (before.length+7)).opened
            (before.length+8)⟩ := by
      cases e <;> rfl
    rw [hstep,hclosed (hobject _ h)]
    rfl

/-- Within braces nothing of such a transcript is noticed. -/
theorem run_body_within {b e : Bool} (he : e=true → b=true) {s : Spans} (hs : s.Within) (i : ℕ) {texts : List String}
    (hb : ∀ t ∈ texts, NoBrace t.toList) : (Reader.run Spans.opened (Spans.closed text) i
      (body (texts.map fun t => (t,braced "\x7b\x7d"))) ⟨b,e,s⟩).state=s := by
  induction texts generalizing b e i with
  | nil => rfl
  | cons t texts ih =>
    obtain ⟨hb,hbs⟩ := List.forall_mem_cons.mp hb
    change (Reader.run _ _ i (t.toList ++ (braced "\x7b\x7d").chars ++ body _) _).state=s
    rw [List.append_assoc,Reader.run_append,run_noBrace hb,Reader.run_append,
      run_pair_within (inStr_of_esc he) hs]
    exact ih (fun hfalse => absurd hfalse Bool.false_ne_true) _ hbs

/-- Objects are lost after a text that leaves a quotation open. -/
theorem lost_after {good rest : List String} {bad : String} (hb : ∀ t ∈ good ++ bad::rest, NoBrace t.toList)
    (hgood : ∀ t ∈ good, Closes t) (hbad : ¬Closes bad) : ∃ ps : List (String × Answer),
      ps.map Prod.fst=good ++ bad::rest ∧ lastJsonObject (transcript ps "")=some (.obj []) ∧
        ∀ p ∈ ps.getLast?, p.2=braced "\x7b\x7d" := by
  obtain ⟨hbgood,hb⟩ := List.forall_mem_append.mp hb
  obtain ⟨hbbad,hbrest⟩ := List.forall_mem_cons.mp hb
  have hopen : (quoted false false bad.toList).inStr=true := Bool.not_eq_false _ ▸ hbad
  let pairs := good.map fun t => (t,braced "\x7b\x7d")
  have hpairs : ∀ p ∈ pairs, p.1 ∈ good := by
    intro p hp
    obtain ⟨t,ht,rfl⟩ := List.mem_map.mp hp
    exact ht
  -- with texts to follow the object is chosen that leaves a brace open
  have hlost : ∀ inside : String, inside="\x7b\x7d" ∨ inside="\x7b\x7d\x7b" →
      (inside="\x7b\x7d" → rest=[]) → lastJsonObject (transcript
        (pairs ++ (bad,braced inside)::rest.map fun t => (t,braced "\x7b\x7d")) "")=some (.obj []) := by
    intro inside hinside hlast
    let text := body pairs ++ (bad.toList ++ ((braced inside).chars ++
      body (rest.map fun t => (t,braced "\x7b\x7d"))))
    have htext : (transcript (pairs ++ (bad,braced inside)::rest.map fun t => (t,braced "\x7b\x7d")) "").toList=text := by
      rw [transcript_toList]
      change body _ ++ []=_
      rw [List.append_nil,body,List.flatMap_append,List.flatMap_cons,List.append_assoc]
      rfl
    have hpre := run_body [] none (fun p hp => hbgood _ (hpairs p hp))
      (fun p hp => hgood _ (hpairs p hp)) (show text=_ from rfl)
    have hsplit : text=body pairs ++ bad.toList ++ ((braced inside).chars ++
        body (rest.map fun t => (t,braced "\x7b\x7d"))) := (List.append_assoc _ _ _).symm
    obtain ⟨s,hbest,hwithin,hinverted⟩ := run_inverted
      ((pairs.getLast?.map fun p => .obj p.2.fields).or none) (e := (quoted false false bad.toList).esc) hinside hsplit
    have hrest : (Reader.run Spans.opened (Spans.closed text) ((body pairs ++ bad.toList).length+(braced inside).chars.length)
        (body (rest.map fun t => (t,braced "\x7b\x7d"))) ⟨true,false,s⟩).state=s := by
      cases hinside with
      | inl hpair =>
        rw [hlast hpair]
        rfl
      | inr hopen => exact run_body_within (fun _ => rfl) (hwithin hopen) _ hbrest
    have hall : bestSpan text=some (.obj []) := by
      unfold bestSpan
      rw [List.length_append] at hinverted hrest
      change Reader.run _ _ 0 _ _=_ at hpre
      rw [Reader.run_append,hpre,Nat.zero_add,Reader.run_append,run_noBrace hbbad,hopen,Reader.run_append,hinverted,
        hrest,hbest]
    unfold lastJsonObject
    rw [htext,hall]
    rfl
  have hmap : ∀ ts : List String, (ts.map fun t => (t,braced "\x7b\x7d")).map Prod.fst=ts := by
    intro ts
    rw [List.map_map]
    exact List.map_id ts
  have hfst : ∀ inside, (pairs ++ (bad,braced inside)::rest.map fun t => (t,braced "\x7b\x7d")).map Prod.fst =
      good ++ bad::rest := by
    intro inside
    rw [List.map_append,List.map_cons,hmap,hmap]
  cases hrest : rest with
  | nil =>
    rw [hrest] at hlost hfst
    refine ⟨_,hfst "\x7b\x7d",hlost _ (.inl rfl) fun _ => rfl,?_⟩
    intro p hp
    rw [List.map_nil,List.getLast?_concat] at hp
    cases hp
    rfl
  | cons t ts =>
    rw [hrest] at hlost hfst
    refine ⟨_,hfst "\x7b\x7d\x7b",hlost _ (.inr rfl) fun h => absurd h (by decide),?_⟩
    intro p hp
    rw [List.map_cons,List.getLast?_append_cons,List.getLast?_cons_cons] at hp
    obtain ⟨u,-,rfl⟩ := List.mem_map.mp (show p ∈ (t::ts).map fun t => (t,braced "\x7b\x7d") from List.mem_of_getLast? hp)
    rfl

/-- The last answer is found, whatever objects are written between the texts, exactly if none of the texts
before them leaves a quotation open. -/
theorem lastJsonObject_last_iff (texts : List String) (hne : texts ≠ []) (hb : ∀ t ∈ texts, NoBrace t.toList) :
    (∀ (ps : List (String × Answer)) (rest : String), ps.map Prod.fst=texts → NoBrace rest.toList →
      lastJsonObject (transcript ps rest)=ps.getLast?.map fun p => .obj p.2.fields) ↔ ∀ t ∈ texts, Closes t := by
  constructor
  · intro h
    by_contra hopen
    obtain ⟨bad,hbad⟩ : ∃ bad, texts.find? (fun t => !decide (Closes t))=some bad := by
      apply Option.ne_none_iff_exists'.mp
      intro hnone
      apply hopen
      intro t ht
      simpa using List.find?_eq_none.mp hnone t ht
    obtain ⟨hnot,good,rest,rfl,hgood⟩ := List.find?_eq_some_iff_append.mp hbad
    obtain ⟨ps,hps,hfound,hlast⟩ := lost_after hb (by simpa using hgood) (by simpa using hnot)
    have hsame := hfound.symm.trans (h ps "" hps (List.forall_mem_nil _))
    cases hget : ps.getLast? with
    | none =>
      rw [hget] at hsame
      cases hsame
    | some p =>
      rw [hget,Option.map_some,hlast p hget] at hsame
      cases hsame
  · intro hc ps rest hps hrest
    have hmem : ∀ p ∈ ps, p.1 ∈ texts := fun p hp => hps ▸ List.mem_map_of_mem hp
    have hrun := run_body [] none (fun p hp => hb _ (hmem p hp))
      (fun p hp => hc _ (hmem p hp)) (transcript_toList ps rest)
    obtain ⟨p,hp⟩ : ∃ p, ps.getLast?=some p := by
      cases hlast : ps.getLast? with
      | none =>
        rw [List.getLast?_eq_none_iff.mp hlast] at hps
        exact absurd hps.symm hne
      | some p => exact ⟨p,rfl⟩
    unfold lastJsonObject bestSpan
    rw [transcript_toList] at hrun ⊢
    rw [Reader.run_append]
    change Reader.run _ _ 0 _ _=_ at hrun
    rw [hrun,run_noBrace hrest,hp]
    rfl

theorem lastJsonObject_last_iff_done : lastJsonObject (transcript [("done: ",braced "\x7b\x7d")] ".") =
    some (.obj (braced "\x7b\x7d").fields) := by
  have hb : ∀ t ∈ ["done: "], NoBrace t.toList := by
    intro t ht
    rw [List.mem_singleton.mp ht]
    unfold NoBrace
    simp
  have hc : ∀ t ∈ ["done: "], Closes t := by
    intro t ht
    rw [List.mem_singleton.mp ht]
    decide +kernel
  have hrest : NoBrace ".".toList := by
    unfold NoBrace
    simp
  exact (lastJsonObject_last_iff ["done: "] (List.cons_ne_nil _ _) hb).mpr hc _ _ rfl hrest

/-- An inch sign in the text before the answer. -/
theorem answer_lost : lastJsonObject (transcript [("the 5\" chart: ",braced "\x7b\x7d")] "")=some (.obj []) ∧
    Value.obj [] ≠ .obj (braced "\x7b\x7d").fields := by
  decide +kernel

end

end TradeGate.AgentMcpBackend
