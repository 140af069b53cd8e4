import TradeGate.Keyed.Ordered
import TradeGate.Machine.Run
import TradeGate.Model.Screener
import TradeGate.Settings.Guards

/-! What a model can do to a screening: it brings some of the cards forward, and adds a remark of which every
number stands in the cards.  No candidate is added or lost, and no score changes. -/
namespace TradeGate.Screener
open Js Machine

section
variable {text : String} {known : String → Option (List String)} {g g' : Guarded} {l : Value} {line : BrainLine}
  {lines : List Value}

/-- A remark of the model: it is short, and has no number of its own. -/
def Remark (text why : String) : Prop := lengthOf why ≤ 80 ∧ ∀ n ∈ numbersIn why, includes text n

/-- A line that the guard lets pass. -/
structure Allowed (text : String) (known : String → Option (List String)) (line : BrainLine) : Prop where
  known : ∃ strategies, known line.symbol=some strategies ∧ line.strategy_id ∈ strategies
  remark : Remark text line.why

theorem readLine_ok (h : readLine l=.ok line) : lengthOf line.why ≤ 80 := by
  unfold readLine at h
  obtain ⟨symbol,-,h⟩ := bind_ok.mp h
  obtain ⟨id,-,h⟩ := bind_ok.mp h
  obtain ⟨why,-,h⟩ := bind_ok.mp h
  cases h
  exact Settings.lengthOf_slice 80 why

/-- What the guard does with a line. -/
theorem guardLine_ok (h : guardLine text known g l=.ok g') : (∃ reason, g'=g.drop l reason) ∨
    ∃ line, Allowed text known line ∧ line.key ∉ g.seen ∧ g'=g.keep line := by
  unfold guardLine at h
  obtain ⟨line,hline,h⟩ := bind_ok.mp h
  have hlen := readLine_ok hline
  cases h
  split
  · exact .inl ⟨_,rfl⟩
  · next strategies hk =>
    by_cases hid : line.strategy_id ∈ strategies
    · rw [if_neg (not_not.mpr hid)]
      split
      · exact .inl ⟨_,rfl⟩
      · next hseen =>
        split
        · exact .inl ⟨_,rfl⟩
        · next hbad =>
          refine .inr ⟨line,⟨⟨strategies,hk,hid⟩,hlen,fun n hn => ?_⟩,hseen,rfl⟩
          simpa using List.find?_eq_none.mp hbad n hn
    · rw [if_pos hid]
      exact .inl ⟨_,rfl⟩

structure Guarded.Sound (text : String) (known : String → Option (List String)) (g : Guarded) : Prop where
  allowed : ∀ line ∈ g.kept, Allowed text known line
  seen : g.seen=g.kept.map BrainLine.key
  nodup : (g.kept.map BrainLine.key).Nodup

theorem Guarded.Sound.step (hg : g.Sound text known) (h : guardLine text known g l=.ok g') : g'.Sound text known := by
  obtain ⟨reason,rfl⟩|⟨line,hline,hnew,rfl⟩ := guardLine_ok h
  · exact ⟨hg.allowed,hg.seen,hg.nodup⟩
  · constructor
    · exact List.forall_mem_append.mpr ⟨hg.allowed,List.forall_mem_singleton.mpr hline⟩
    · change g.seen ++ [line.key]=_
      rw [hg.seen,keep,List.map_append]
      rfl
    · change ((g.kept ++ [line]).map BrainLine.key).Nodup
      rw [hg.seen] at hnew
      rw [List.map_append,List.map_singleton,List.nodup_append]
      refine ⟨hg.nodup,List.nodup_singleton _,fun k hk k' hk' he => hnew ?_⟩
      rw [← List.mem_singleton.mp hk',← he]
      exact hk

theorem guardLines_sound (h : guardBrainLines lines text known=.ok g) : g.Sound text known := by
  refine foldlM_invariant h ⟨List.forall_mem_nil _,rfl,List.nodup_nil⟩ fun l _ g g' hg hs => hg.step hs

theorem guardLines_length (h : lines.foldlM (guardLine text known) g=.ok g') :
    g'.kept.length+g'.dropped.length=g.kept.length+g.dropped.length+lines.length := by
  induction lines generalizing g with
  | nil =>
    cases h
    rfl
  | cons l lines ih =>
    rw [List.foldlM_cons] at h
    obtain ⟨g₁,hg₁,h⟩ := bind_ok.mp h
    rw [ih h,List.length_cons]
    obtain ⟨reason,rfl⟩|⟨line,-,-,rfl⟩ := guardLine_ok hg₁
    · change g.kept.length+(g.dropped ++ [_]).length+lines.length=_
      rw [List.length_append,List.length_singleton]
      omega
    · change (g.kept ++ [_]).length+g.dropped.length+lines.length=_
      rw [List.length_append,List.length_singleton]
      omega

end

/-! The pass. -/
section
variable {brain : Brain} {at_ : String} {cards : List OpportunityCard}

/-- What the pass lets through stands in the cards it was shown. -/
theorem brainPass_ranked (brain : Brain) (at_ : String) (cards : List OpportunityCard) :
    (brainPass brain at_ cards).ranked.length ≤ 10 ∧ ∀ line ∈ (brainPass brain at_ cards).ranked,
      Allowed (cardsText (cards.take BRAIN_TOP_CARDS)) (knownOf (cards.take BRAIN_TOP_CARDS)) line := by
  unfold brainPass
  dsimp only
  split
  · exact ⟨Nat.zero_le _,List.forall_mem_nil _⟩
  · next first rest htop =>
    rw [htop]
    split
    · next r g hasked =>
      obtain ⟨r',-,hasked⟩ := bind_ok.mp hasked
      obtain ⟨parsed,-,hasked⟩ := bind_ok.mp hasked
      obtain ⟨g',hg,hasked⟩ := bind_ok.mp hasked
      cases hasked
      constructor
      · have := guardLines_length hg
        rw [List.length_take] at this
        change g.kept.length ≤ 10
        change _=0+0+_ at this
        omega
      · exact (guardLines_sound hg).allowed
    · exact ⟨Nat.zero_le _,List.forall_mem_nil _⟩

end

/-! The order. -/
section
variable {ranked : List BrainLine} {cards : List OpportunityCard} {symbol : String}

theorem placeOf_cases (ranked : List BrainLine) (symbol : String) :
    symbol ∈ ranked.map BrainLine.symbol ∧ placeOf ranked symbol<ranked.length ∨
      symbol ∉ ranked.map BrainLine.symbol ∧ placeOf ranked symbol=999 := by
  unfold placeOf
  cases hfind : ranked.zipIdx.reverse.find? fun p => decide (p.1.symbol=symbol) with
  | some p =>
    have hmem := List.mem_zipIdx (List.mem_reverse.mp (List.mem_of_find?_eq_some hfind))
    have hsymbol : p.1.symbol=symbol := by simpa using List.find?_some hfind
    left
    refine ⟨List.mem_map.mpr ⟨p.1,?_,hsymbol⟩,?_⟩
    · rw [hmem.2.2]
      exact List.getElem_mem _
    · change p.2<_
      omega
  | none =>
    right
    refine ⟨fun h => ?_,rfl⟩
    obtain ⟨line,hline,hsymbol⟩ := List.mem_map.mp h
    obtain ⟨i,hi,hget⟩ := List.mem_iff_getElem.mp hline
    have hmem : (line,i) ∈ ranked.zipIdx := List.mem_zipIdx_iff_getElem?.mpr (by rw [List.getElem?_eq_getElem hi,hget])
    exact List.find?_eq_none.mp hfind _ (List.mem_reverse.mpr hmem) (decide_eq_true hsymbol)

/-- The cards that the model names come first; the others keep their order. -/
theorem reorder_split (h : ranked.length ≤ 10) (cards : List OpportunityCard) : ∃ first,
    reorder ranked cards=first ++ cards.filter (fun c => c.symbol ∉ ranked.map BrainLine.symbol) ∧
      ∀ c ∈ first, c.symbol ∈ ranked.map BrainLine.symbol := by
  have hplace : ∀ c : OpportunityCard, placeOf ranked c.symbol<999 ↔ c.symbol ∈ ranked.map BrainLine.symbol := by
    intro c
    rcases placeOf_cases ranked c.symbol with ⟨hmem,hlt⟩ | ⟨hmem,heq⟩
    · exact iff_of_true (by omega) hmem
    · exact iff_of_false (by omega) hmem
  unfold reorder
  split
  · next hnil =>
    refine ⟨[],?_,List.forall_mem_nil _⟩
    rw [hnil]
    simp
  · have hlevel : ∀ c ∈ cards, placeOf ranked c.symbol<999 ∨ placeOf ranked c.symbol=999 := fun c _ => by
      rcases placeOf_cases ranked c.symbol with ⟨-,hlt⟩ | ⟨-,heq⟩
      · exact .inl (by omega)
      · exact .inr heq
    have hsplit := Keyed.insertionSort_split hlevel
    simp only [hplace,← decide_not] at hsplit
    exact ⟨_,hsplit,fun c hc => of_decide_eq_true (List.mem_filter.mp hc).2⟩

theorem reorder_perm (ranked : List BrainLine) (cards : List OpportunityCard) : (reorder ranked cards).Perm cards := by
  unfold reorder
  split
  · exact List.Perm.refl _
  · exact List.perm_insertionSort _ _

end

/-! A whole screening. -/
section
variable {deps : RunScreenDeps} {ranked : List BrainLine} {text : String}

/-- What a candidate says, apart from its place and its reasons. -/
def WatchCandidate.facts (c : WatchCandidate) : WatchCandidate := { c with rank := 0, reasons := [] }

/-- The same candidate with at most one remark more. -/
def Remarked (text : String) (p c : WatchCandidate) : Prop := ∃ remark : Option String,
  c={ p with reasons := p.reasons ++ remark.toList.map ("模型:" ++ ·) } ∧ ∀ why ∈ remark, Remark text why

theorem candidatesOf_facts (deps : RunScreenDeps) (ranked : List BrainLine) (cards : List OpportunityCard) :
    (candidatesOf deps ranked cards).map WatchCandidate.facts =
      (cards.filterMap fun c => c.best.map fun best => (c,best)).map fun p => (candidateOf deps [] p.1 p.2 0).facts := by
  unfold candidatesOf
  rw [List.map_map]
  conv_rhs => rw [← List.zipIdx_map_fst 0 (cards.filterMap fun c => c.best.map fun best => (c,best)),List.map_map]
  rfl

theorem candidatesOf_remarked (h : ∀ line ∈ ranked, Remark text line.why) (cards : List OpportunityCard) :
    List.Forall₂ (Remarked text) (candidatesOf deps [] cards) (candidatesOf deps ranked cards) := by
  unfold candidatesOf
  rw [List.forall₂_map_left_iff,List.forall₂_map_right_iff,List.forall₂_same]
  intro p _
  refine ⟨(whyOf ranked (p.1.1.symbol ++ ":" ++ p.1.2.strategy_id)).filter fun why => why ≠ "",?_,fun why hwhy => ?_⟩
  · unfold candidateOf
    rw [show whyOf [] (p.1.1.symbol ++ ":" ++ p.1.2.strategy_id)=none from rfl]
    simp
  · obtain ⟨hwhy,-⟩ := Option.filter_eq_some_iff.mp hwhy
    obtain ⟨line,hline,rfl⟩ := Option.map_eq_some_iff.mp hwhy
    exact h line (List.mem_reverse.mp (List.mem_of_find?_eq_some hline))

/-- The symbols that the model names. -/
def RunScreenResult.spoken (r : RunScreenResult) : List String :=
  (r.brain.elim [] BrainPassResult.ranked).map BrainLine.symbol

theorem runScreen_none (deps : RunScreenDeps) (built : List OpportunityCard) :
    (runScreen deps none built).cards=built.insertionSort ahead ∧
      (runScreen deps none built).candidates=candidatesOf deps [] (built.insertionSort ahead) := ⟨rfl,rfl⟩

/-- What the model is allowed to say in a screening. -/
theorem runScreen_ranked (deps : RunScreenDeps) (brain : Brain) (built : List OpportunityCard) : ∃ ranked,
    (runScreen deps (some brain) built).brain.elim [] BrainPassResult.ranked=ranked ∧ ranked.length ≤ 10 ∧
      ∀ line ∈ ranked, Remark (cardsText ((built.insertionSort ahead).take BRAIN_TOP_CARDS)) line.why := by
  refine ⟨_,rfl,?_⟩
  unfold runScreen
  dsimp only
  rw [Option.filter_some]
  split
  · obtain ⟨hlen,hall⟩ := brainPass_ranked brain deps.nowText (built.insertionSort ahead)
    exact ⟨hlen,fun line hline => (hall line hline).remark⟩
  · exact ⟨Nat.zero_le _,List.forall_mem_nil _⟩

/-- The model orders cards and remarks on them: whatever it answers, the screening has the cards and the
candidates it has without a model, those it does not name in the same order behind those it names. -/
theorem runScreen_opinion (deps : RunScreenDeps) (brain : Brain) (built : List OpportunityCard) :
    let plain := runScreen deps none built
    let r := runScreen deps (some brain) built
    (∃ first, r.cards=first ++ plain.cards.filter (fun c => c.symbol ∉ r.spoken) ∧ ∀ c ∈ first, c.symbol ∈ r.spoken) ∧
      r.cards.Perm plain.cards ∧ (r.candidates.map WatchCandidate.facts).Perm (plain.candidates.map WatchCandidate.facts) ∧
      List.Forall₂ (Remarked (cardsText (plain.cards.take BRAIN_TOP_CARDS))) (candidatesOf deps [] r.cards) r.candidates ∧
      r.proposal.symbols.length ≤ max 1 deps.watchlist_max ∧
      ∀ s ∈ r.proposal.symbols, s ∈ built.map OpportunityCard.symbol := by
  obtain ⟨ranked,hranked,hlen,hremark⟩ := runScreen_ranked deps brain built
  have hspoken : (runScreen deps (some brain) built).spoken=ranked.map BrainLine.symbol := by
    rw [RunScreenResult.spoken,hranked]
  have hcards : (runScreen deps (some brain) built).cards=reorder ranked (built.insertionSort ahead) := by
    rw [← hranked]
    rfl
  have hcandidates : (runScreen deps (some brain) built).candidates =
      candidatesOf deps ranked (reorder ranked (built.insertionSort ahead)) := by
    rw [← hranked]
    rfl
  have hperm := reorder_perm ranked (built.insertionSort ahead)
  dsimp only
  rw [(runScreen_none deps built).1,(runScreen_none deps built).2,hspoken,hcards,hcandidates]
  refine ⟨reorder_split hlen _,hperm,?_,candidatesOf_remarked hremark _,?_,?_⟩
  · rw [candidatesOf_facts,candidatesOf_facts]
    exact (hperm.filterMap _).map _
  · change (((runScreen deps (some brain) built).candidates.take _).map _).length ≤ _
    rw [List.length_map,List.length_take]
    exact Nat.min_le_left _ _
  · intro s hs
    change s ∈ ((runScreen deps (some brain) built).candidates.take _).map _ at hs
    obtain ⟨c,hc,rfl⟩ := List.mem_map.mp hs
    have hc := List.mem_of_mem_take hc
    rw [hcandidates,candidatesOf] at hc
    obtain ⟨p,hp,rfl⟩ := List.mem_map.mp hc
    obtain ⟨card,hcard,hbest⟩ := List.mem_filterMap.mp (List.fst_mem_of_mem_zipIdx hp)
    obtain ⟨best,-,hpair⟩ := Option.map_eq_some_iff.mp hbest
    refine List.mem_map.mpr ⟨card,(List.mem_insertionSort _).mp (hperm.mem_iff.mp hcard),?_⟩
    rw [← hpair]
    rfl

end

end TradeGate.Screener
