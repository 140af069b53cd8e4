import TradeGate.Agent.Transcript
import TradeGate.Model.Answers

/-! What `extractJson` finds: an object that is written in prose or in a fence is read back as it is, and what is
read is the first span of balanced braces and stands in the text. -/
namespace TradeGate.Extract
open Js AgentMcpBackend

/-! The scan. -/
section
variable {cs ds : List Char} {i n : ℕ} {s : Scan} {r : Reader Scan}

/-- The reader stands within braces and has not returned. -/
def Scan.Within (s : Scan) : Prop := 0<s.depth ∧ s.stop=none

theorem Scan.closed_opened (h : s.Within) (i j : ℕ) : (s.opened i).closed j=s := by
  obtain ⟨depth,stop⟩ := s
  obtain ⟨hdepth,hstop⟩ := h
  change 0<depth at hdepth
  unfold closed opened
  dsimp only
  rw [if_neg (by omega),Nat.add_sub_cancel]

theorem scan_quiet : Json.Closed (Reader.Quiet Scan.opened Scan.closed Scan.Within) where
  nil := fun _ _ _ => rfl
  append := Reader.quiet_append
  char := Reader.quiet_char
  string := Reader.quiet_string
  object := Reader.quiet_braces (fun _ _ h => ⟨Nat.succ_pos _,h.2⟩) fun _ i j h => Scan.closed_opened h i j

theorem next_stop (h : r.state.stop=some n) (i : ℕ) (c : Char) :
    (r.next Scan.opened Scan.closed i c).state.stop=some n := by
  unfold Reader.next
  split_ifs
  all_goals
    first
      | exact h
      | change (Scan.closed r.state i).stop=some n
        unfold Scan.closed
        dsimp only
        rw [h]
        split <;> rfl

/-- The scan returns behind the character that was read. -/
theorem next_returns {c : Char} (hr : r.state.stop=none) (h : (r.next Scan.opened Scan.closed i c).state.stop=some n) :
    n=i+1 := by
  unfold Reader.next at h
  split_ifs at h
  all_goals
    first
      | exact absurd (hr.symm.trans h) (Option.some_ne_none n).symm
      | change (Scan.closed r.state i).stop=some n at h
        unfold Scan.closed at h
        dsimp only at h
        rw [hr] at h
        split at h
        · exact (Option.some.inj h).symm
        · cases h

/-- Once returned, the scan is over. -/
theorem run_stop (h : r.state.stop=some n) (i : ℕ) (cs : List Char) :
    (Reader.run Scan.opened Scan.closed i cs r).state.stop=some n := by
  induction cs generalizing i r with
  | nil => exact h
  | cons c cs ih => exact ih (next_stop h i c) (i+1)

/-- The scan of an object ends with it, whatever follows. -/
theorem closing_answer (a : AgentMcpBackend.Answer) (after : List Char) : closing (a.chars ++ after)=some a.chars.length := by
  obtain ⟨cs,hcs,hquiet⟩ := scan_quiet.stringify_obj a.spaces a.proper
  change a.chars=_ at hcs
  rw [hcs,closing,Reader.run_append]
  apply run_stop
  change (Reader.run Scan.opened Scan.closed 1 _ ⟨false,false,⟨1,none⟩⟩).state.stop=_
  rw [Reader.run_append,hquiet 1 ⟨1,none⟩ ⟨Nat.one_pos,rfl⟩]
  change some (1+cs.length+1)=_
  rw [List.length_cons,List.length_append,List.length_singleton]
  congr 1
  omega

/-- Where the scan returns, it had read that far and no further. -/
theorem run_take (hr : r.state.stop=none) (h : (Reader.run Scan.opened Scan.closed i cs r).state.stop=some n) :
    i<n ∧ n ≤ i+cs.length ∧ (Reader.run Scan.opened Scan.closed i (cs.take (n-i)) r).state.stop=some n := by
  induction cs generalizing i r with
  | nil =>
    rw [Reader.run,hr] at h
    cases h
  | cons c cs ih =>
    change (Reader.run Scan.opened Scan.closed (i+1) cs (r.next Scan.opened Scan.closed i c)).state.stop=some n at h
    cases hn : (r.next Scan.opened Scan.closed i c).state.stop with
    | none =>
      obtain ⟨hlt,hle,hrun⟩ := ih hn h
      refine ⟨by omega,by rw [List.length_cons]; omega,?_⟩
      rw [show n-i=n-(i+1)+1 by omega,List.take_succ_cons]
      exact hrun
    | some m =>
      have hm := next_returns hr hn
      rw [run_stop hn] at h
      cases h
      refine ⟨by omega,by rw [List.length_cons]; omega,?_⟩
      rw [hm,Nat.add_sub_cancel_left]
      exact hm ▸ hn

theorem closing_take (h : closing cs=some n) : n ≤ cs.length ∧ closing (cs.take n)=some n := by
  obtain ⟨-,hle,hrun⟩ := run_take rfl h
  rw [Nat.zero_add] at hle
  exact ⟨hle,hrun⟩

end

/-! What is found in the candidate text. -/
section
variable {syntaxError : List Char → String} {text : String} {before after : List Char} {v : Value}

/-- Nothing but what is before the first brace is skipped. -/
theorem dropWhile_brace {cs : List Char} (h : '\x7b' ∉ before) :
    (before ++ ('\x7b'::cs)).dropWhile (fun c => c ≠ '\x7b')= '\x7b'::cs := by
  rw [List.dropWhile_append_of_pos]
  · rfl
  · intro c hc
    exact decide_eq_true fun he => h (he ▸ hc)

/-- What is given is the first span of balanced braces. -/
theorem extractJson_iff : extractJson syntaxError text=.ok v ↔ ∃ before span after,
    candidate text.toList=before ++ ('\x7b'::span ++ after) ∧ '\x7b' ∉ before ∧
      closing ('\x7b'::span ++ after)=some (span.length+1) ∧ Json.parse ('\x7b'::span)=some v := by
  unfold extractJson
  constructor
  · intro h
    dsimp only at h
    split at h
    · cases h
    · next hne =>
      have hhead := List.head_dropWhile_not (fun c => decide (c ≠ '\x7b')) hne
      obtain ⟨c,cs,hcs⟩ := List.exists_cons_of_ne_nil hne
      simp only [hcs,List.head_cons,decide_eq_false_iff_not,not_not] at hhead
      rw [hhead] at hcs
      rw [hcs] at h
      split at h
      · cases h
      · next n hn =>
        obtain ⟨hpos,-,-⟩ := run_take rfl hn
        obtain ⟨n,rfl⟩ := Nat.exists_eq_succ_of_ne_zero hpos.ne'
        obtain ⟨hle,hclose⟩ := closing_take hn
        refine ⟨(candidate text.toList).takeWhile fun c => c ≠ '\x7b',cs.take n,cs.drop n,?_,?_,?_,?_⟩
        · rw [List.cons_append,List.take_append_drop,← hcs,List.takeWhile_append_dropWhile]
        · intro hmem
          simpa using List.mem_takeWhile_imp hmem
        · rw [List.cons_append,List.take_append_drop,hn,List.length_take]
          rw [List.length_cons] at hle
          congr 1
          omega
        · rw [List.take_succ_cons] at h
          cases hp : Json.parse ('\x7b'::cs.take n) with
          | none =>
            rw [hp] at h
            cases h
          | some w =>
            rw [hp] at h
            cases h
            rfl
  · rintro ⟨before,span,after,htext,hb,hclose,hparse⟩
    rw [htext,List.cons_append,dropWhile_brace hb,if_neg (List.cons_ne_nil _ _),← List.cons_append,hclose]
    dsimp only
    rw [show span.length+1=('\x7b'::span).length from rfl,List.take_left,hparse]
    rfl

end

/-! Objects in prose and in fences. -/
section
variable {syntaxError : List Char → String} {text : String} {before after intro outro : List Char} {a : AgentMcpBackend.Answer}

/-- The object is the first in the text, or the first between the first two fences. -/
inductive Stands (a : AgentMcpBackend.Answer) : List Char → Prop
  | bare {before after : List Char} : '\x7b' ∉ before → fenced (before ++ (a.chars ++ after))=none →
      Stands a (before ++ (a.chars ++ after))
  | inFence {intro before after outro : List Char} : '\x7b' ∉ before → ¬fence <:+: intro ++ fence.dropLast →
      ¬fence <:+: before ++ (a.chars ++ after) ++ fence.dropLast →
        Stands a (intro ++ (fence ++ (before ++ (a.chars ++ after) ++ (fence ++ outro))))

/-- A tag ends before the object. -/
theorem untagged_brace (before cs : List Char) :
    ∃ rest, rest <:+ before ∧ untagged (before ++ ('\x7b'::cs))=rest ++ ('\x7b'::cs) := by
  have hspaces : ∀ rest, rest <:+ before → ∃ rest', rest' <:+ before ∧
      (rest ++ ('\x7b'::cs)).dropWhile isSpace=rest' ++ ('\x7b'::cs) := by
    intro rest hrest
    refine ⟨rest.dropWhile isSpace,(List.dropWhile_suffix _).trans hrest,?_⟩
    rw [List.dropWhile_append]
    split
    · next hnil =>
      rw [List.isEmpty_iff.mp hnil]
      rfl
    · rfl
  unfold untagged
  split
  · next htag =>
    have hlen : 4 ≤ before.length := by
      by_contra hlt
      have hmem : '\x7b' ∈ (before ++ ('\x7b'::cs)).take 4 := by
        rw [List.take_append,List.mem_append]
        right
        obtain ⟨k,hk⟩ := Nat.exists_eq_succ_of_ne_zero (show 4-before.length ≠ 0 by omega)
        rw [hk]
        exact List.mem_cons_self
      have := List.mem_map_of_mem (f := Char.toLower) hmem
      rw [htag] at this
      revert this
      decide
    rw [List.drop_append_of_le_length hlen]
    exact hspaces _ (List.drop_suffix _ _)
  · exact hspaces _ List.suffix_rfl

theorem candidate_stands (h : Stands a text.toList) : ∃ before after, '\x7b' ∉ before ∧
    candidate text.toList=before ++ (a.chars ++ after) := by
  generalize text.toList=cs at h
  cases h with
  | @bare before after hb hf => exact ⟨before,after,hb,by rw [candidate,hf]; rfl⟩
  | @inFence intro before after outro hb hintro hinner =>
    obtain ⟨cs,hcs,-⟩ := scan_quiet.stringify_obj a.spaces a.proper
    change a.chars=_ at hcs
    rw [hcs,List.cons_append] at hinner ⊢
    obtain ⟨rest,hrest,htag⟩ := untagged_brace before (cs ++ ['\x7d'] ++ after ++ (fence ++ outro))
    have hfence : fence ≠ [] := by decide
    have hfirst : Words.splitFirst fence (intro ++ (fence ++ (before ++ ('\x7b'::(cs ++ ['\x7d'] ++ after)) ++
        (fence ++ outro))))=some (intro,before ++ ('\x7b'::(cs ++ ['\x7d'] ++ after)) ++ (fence ++ outro)) :=
      (Words.splitFirst_some hfence).mpr ⟨rfl,hintro⟩
    have hsecond : Words.splitFirst fence (rest ++ ('\x7b'::(cs ++ ['\x7d'] ++ after)) ++ (fence ++ outro)) =
        some (rest ++ ('\x7b'::(cs ++ ['\x7d'] ++ after)),outro) := by
      refine (Words.splitFirst_some hfence).mpr ⟨rfl,fun h => hinner (h.trans ?_)⟩
      obtain ⟨t,rfl⟩ := hrest
      exact ⟨t,[],by simp only [List.append_assoc,List.append_nil]⟩
    refine ⟨rest,after,fun h => hb (hrest.subset h),?_⟩
    rw [candidate,fenced,hfirst,Option.bind_some,List.append_assoc before,List.cons_append,htag,← List.cons_append,
      ← List.append_assoc rest,hsecond]
    rfl

/-- What a model writes as an object is read back, in prose or in a fence, whatever follows it. -/
theorem extractJson_reads (syntaxError : List Char → String) (h : Stands a text.toList) :
    extractJson syntaxError text=.ok (.obj a.fields) := by
  obtain ⟨before,after,hb,htext⟩ := candidate_stands h
  obtain ⟨cs,hcs,-⟩ := scan_quiet.stringify_obj a.spaces a.proper
  change a.chars=_ at hcs
  have hclose := closing_answer a after
  have hparse : Json.parse a.chars=some (.obj a.fields) := Json.parse_stringify a.spaces a.proper
  rw [hcs] at htext hclose hparse
  exact extractJson_iff.mpr ⟨before,_,after,htext,hb,hclose,hparse⟩

theorem extractJson_reads_fenced : extractJson (fun _ => "") ("Here:\n```json\n" ++ String.ofList (braced "\x7b\x7d").chars ++
    "\n``` \x7b") = .ok (.obj (braced "\x7b\x7d").fields) := by
  refine extractJson_reads _ ?_
  have htext : ("Here:\n```json\n" ++ String.ofList (braced "\x7b\x7d").chars ++ "\n``` \x7b").toList =
      "Here:\n".toList ++ (fence ++ ("json\n".toList ++ ((braced "\x7b\x7d").chars ++ "\n".toList) ++
        (fence ++ " \x7b".toList))) := by
    rw [chars_braced.1]
    decide
  rw [htext]
  refine .inFence (by decide) (by decide) ?_
  rw [chars_braced.1]
  decide

end

end TradeGate.Extract
