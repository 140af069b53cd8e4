import TradeGate.Settings.Chat

/-! What a proposal shows and what its confirmation does: a patch that was tried without an error gives
its keys the same values on any workflow that agrees on the few things it looks at. -/
namespace TradeGate.Settings
open Js Machine

/-- An accepted value is the same whatever the workflow is. -/
def Field.Fixed (f : Field) : Prop := ∀ v value, f.read v=.ok ([],value) → ∃ x, value=some fun _ => x

theorem given_fixed {x : Value} {value : Option (Workflow → Value)} (h : given x=.ok ([],value)) :
    ∃ x, value=some fun _ => x := by
  cases h
  exact ⟨x,rfl⟩

theorem refused_not {why : String} {value : Option (Workflow → Value)} :
    refused why ≠ .ok ([],value) := by
  intro h
  cases h

theorem oneOf_fixed (key sep : String) (words : List String) : (oneOf key sep words).Fixed := by
  intro v value h
  dsimp only [oneOf] at h
  split at h
  · split_ifs at h
    · exact given_fixed h
    · cases refused_not h
  · cases refused_not h

theorem modelId_fixed (key example_ : String) : (modelId key example_).Fixed := by
  intro v value h
  dsimp only [modelId] at h
  split at h
  · exact given_fixed h
  · split_ifs at h
    · exact given_fixed h
    · exact given_fixed h
    · cases refused_not h
  · cases refused_not h

theorem switch_fixed (key : String) : (switch key).Fixed := by
  intro v value h
  dsimp only [switch] at h
  split at h
  · exact given_fixed h
  · cases refused_not h

theorem playbookText_fixed : playbookText.Fixed := by
  intro v value h
  dsimp only [playbookText] at h
  split at h
  · exact given_fixed h
  · cases refused_not h

theorem timeframe_fixed : timeframe.Fixed := by
  intro v value h
  obtain ⟨tf,-,h⟩ := bind_ok.mp h
  split_ifs at h
  · exact given_fixed h
  · cases refused_not h

/-- The keys of proposals: two lists of symbols, and keys whose values are fixed. -/
theorem isProposal_cases {k : String} {v : Value} (h : isProposal k v) :
    k="watchlist" ∨ k="watch_only" ∨ ∃ f, (f ∈ firstFields ∨ f ∈ lastFields) ∧ f.key=k ∧ f.Fixed := by
  obtain ⟨-,h|⟨rfl,-⟩⟩ := h
  · simp only [proposalWorkflowKeys,List.mem_cons,List.not_mem_nil,or_false] at h
    rcases h with rfl|rfl|rfl|rfl|rfl|rfl|rfl|rfl
    · exact .inl rfl
    · exact .inr (.inl rfl)
    · exact .inr (.inr ⟨timeframe,.inl (by simp [firstFields]),rfl,timeframe_fixed⟩)
    · exact .inr (.inr ⟨playbookText,.inl (by simp [firstFields]),rfl,playbookText_fixed⟩)
    · exact .inr (.inr ⟨brain "brain",.inl (by simp [firstFields]),rfl,oneOf_fixed _ _ _⟩)
    · exact .inr (.inr ⟨brainModel "brain_model",.inl (by simp [firstFields]),rfl,modelId_fixed _ _⟩)
    · exact .inr (.inr ⟨brain "cheap_brain",.inl (by simp [firstFields]),rfl,oneOf_fixed _ _ _⟩)
    · exact .inr (.inr ⟨brainModel "cheap_brain_model",.inl (by simp [firstFields]),rfl,modelId_fixed _ _⟩)
  · exact .inr (.inr ⟨switch "paused",.inr List.mem_cons_self,rfl,switch_fixed _⟩)

/-- The symbols that a patch proposes to trade. -/
def proposedSymbols (patch : Patch) : List String :=
  match field patch "watchlist" with
  | some (.arr raw) => (perpetuals raw).toOption.getD []
  | _ => []

/-- The symbols that a patch proposes to watch only. -/
def markedSymbols (patch : Patch) : List String :=
  match field patch "watch_only" with
  | some (.arr raw) => (raw.mapM textOf).toOption.getD []
  | _ => []

/-- How many of the symbols `watchlist_max` leaves room for. -/
def room (w : Workflow) (list : List String) : ℕ := (sliceTo (w "watchlist_max") list).length

/-- What a patch looks at is the same in two workflows: how many of its symbols there is room for and,
where it keeps the watchlist, which of the symbols it marks are on it. -/
def SameContext (patch : Patch) (w w' : Workflow) : Prop :=
  room w (proposedSymbols patch)=room w' (proposedSymbols patch) ∧
    (field patch "watchlist"=none → ∀ s ∈ markedSymbols patch,
      .str (upperCase (trimmed s)) ∈ elements (w "watchlist") ↔
        .str (upperCase (trimmed s)) ∈ elements ( w' "watchlist"))

instance (patch : Patch) (w w' : Workflow) : Decidable (SameContext patch w w') :=
  inferInstanceAs (Decidable (_ ∧ (_ → _)))

theorem sliceTo_isPrefix {α : Type} (n : Value) (xs : List α) : sliceTo n xs <+: xs := by
  unfold sliceTo
  split
  · exact List.take_prefix _ _
  · split
    · exact List.nil_prefix
    · exact List.prefix_refl _
  · exact List.nil_prefix

theorem sliceTo_eq_of_length {α : Type} {m n : Value} {xs : List α}
    (h : (sliceTo m xs).length=(sliceTo n xs).length) : sliceTo m xs=sliceTo n xs :=
  (List.prefix_of_prefix_length_le (sliceTo_isPrefix m xs) (sliceTo_isPrefix n xs) h.le).eq_of_length h

section
variable {patch : Patch} {w w₀ : Workflow} {now now₀ : ℕ} {p q : Patching} {f : Field} {v : Value}
  {k : String}

theorem isProposal_off (hp : ∀ f ∈ patch, isProposal f.1 f.2) : field patch "watchlist_max"=none :=
  Patch.Mild.off (fun f hf => .inr (hp f hf)) (by decide)

/-- The value under a fixed key. -/
theorem applyWorkflowPatch_fixed (hm : field patch "watchlist_max"=none)
    (h : applyWorkflowPatch w patch now=.ok q) (hf : f ∈ firstFields ∨ f ∈ lastFields)
    (hv : field patch f.key=some v) {x : Value} (hr : f.read v=.ok ([],some fun _ => x)) :
    q.next f.key=x := by
  have hplain : (f.read v).Plain := fun errors y hy _ _ => by
    rw [hr] at hy
    cases hy
    rfl
  rcases hf with hf|hf
  · obtain ⟨_,_,hr',-,hx⟩ := applyWorkflowPatch_first hm h hf hv
    rw [hr] at hr'
    cases hr'
    exact hx (hplain.within _) _ rfl
  · obtain ⟨_,_,hr',-,hx⟩ := applyWorkflowPatch_last hm h hf hv
    rw [hr] at hr'
    cases hr'
    exact hx hplain _ rfl

/-- The watchlist of a patch is cut to what there is room for. -/
theorem applyWorkflowPatch_listed (hm : field patch "watchlist_max"=none)
    (h : applyWorkflowPatch w patch now=.ok q) (he : q.errors=[]) (hv : field patch "watchlist"=some v) :
    q.next "watchlist"=.arr ((sliceTo (w "watchlist_max") (proposedSymbols patch)).map .str) := by
  obtain ⟨value,hr⟩ := applyWorkflowPatch_reads (f := watchlist) hm h he
    (List.mem_append_left _ List.mem_cons_self) hv
  obtain ⟨_,_,hr',-,hx⟩ := applyWorkflowPatch_first (f := watchlist) hm h List.mem_cons_self hv
  rw [hr] at hr'
  cases hr'
  cases v with
  | arr raw =>
    obtain ⟨list,hlist,hr⟩ := bind_ok.mp hr
    have hsym : proposedSymbols patch=list := by
      simp only [proposedSymbols,hv,hlist]
      rfl
    split_ifs at hr
    · cases hr
    · cases hr
      rw [hsym]
      refine hx (fun errors x hx w w' hw => ?_) _ rfl
      obtain ⟨list',hlist',hx⟩ := bind_ok.mp hx
      split_ifs at hx
      · cases hx
      · cases hx
        dsimp only
        rw [hw "watchlist_max" (by decide +kernel)]
  | _ => cases hr

/-- The marked symbols that are on the watchlist are watched only. -/
theorem applyWorkflowPatch_watched (hm : field patch "watchlist_max"=none)
    (h : applyWorkflowPatch w patch now=.ok q) (he : q.errors=[]) (hv : field patch "watch_only"=some v) :
    q.next "watch_only"=watched (markedSymbols patch) (q.next "watchlist") := by
  obtain ⟨value,hr⟩ := applyWorkflowPatch_reads (f := watchOnly) hm h he
    (List.mem_append_right _ List.mem_cons_self) hv
  obtain ⟨_,_,-,-,hx⟩ := applyWorkflowPatch_marked hm h hv
  cases v with
  | arr raw =>
    obtain ⟨list,hlist,-⟩ := bind_ok.mp hr
    have hsym : markedSymbols patch=list := by
      simp only [markedSymbols,hv,hlist]
      rfl
    rw [hsym]
    exact hx raw list rfl hlist
  | _ => cases hr

theorem watched_congr {list : List String} {x y : Value}
    (h : ∀ s ∈ list, .str (upperCase (trimmed s)) ∈ elements x ↔
      .str (upperCase (trimmed s)) ∈ elements y) : watched list x=watched list y := by
  have hfilter : ((list.map fun s => upperCase (trimmed s)).filter fun s => Value.str s ∈ elements x)=
      (list.map fun s => upperCase (trimmed s)).filter fun s => Value.str s ∈ elements y := by
    refine List.filter_congr fun s hs => ?_
    obtain ⟨a,ha,rfl⟩ := List.mem_map.mp hs
    exact decide_eq_decide.mpr (h a ha)
  rw [watched,watched,hfilter]

/-- The patch of a proposal that was accepted on one workflow is accepted on another one, and gives its
keys the same values. -/
theorem applyWorkflowPatch_alike (hp : ∀ f ∈ patch, isProposal f.1 f.2)
    (h₀ : applyWorkflowPatch w₀ patch now₀=.ok p) (he₀ : p.errors=[]) (hc : SameContext patch w₀ w) :
    ∃ q, applyWorkflowPatch w patch now=.ok q ∧ q.errors=[] ∧
      ∀ k ∈ patch.map Prod.fst, q.next k=p.next k := by
  have hm := isProposal_off hp
  have hreads : ∀ f ∈ firstFields ++ watchOnly::lastFields, ∀ v, field patch f.key=some v →
      ∃ value, f.read v=.ok ([],value) := fun f hf v hv => applyWorkflowPatch_reads hm h₀ he₀ hf hv
  obtain ⟨q,hq,he⟩ : ∃ q, applyWorkflowPatch w patch now=.ok q ∧ q.errors=[] :=
    applyWorkflowPatch_total hm hreads
  have hlist : field patch "watchlist" ≠ none → q.next "watchlist"=p.next "watchlist" := fun hn => by
    obtain ⟨v,hv⟩ := Option.ne_none_iff_exists'.mp hn
    rw [applyWorkflowPatch_listed hm hq he hv,applyWorkflowPatch_listed hm h₀ he₀ hv,
      sliceTo_eq_of_length hc.1]
  refine ⟨q,hq,he,fun k hk => ?_⟩
  have hn : field patch k ≠ none := fun hn => by
    obtain ⟨f,hf,rfl⟩ := List.mem_map.mp hk
    exact absurd rfl (bne_iff_ne.mp (List.lookup_eq_none_iff.mp hn f hf))
  obtain ⟨v,hv⟩ := Option.ne_none_iff_exists'.mp hn
  obtain rfl|rfl|⟨f,hf,rfl,hfix⟩ := isProposal_cases (hp _ (field_mem hv))
  · exact hlist hn
  · rw [applyWorkflowPatch_watched hm hq he hv,applyWorkflowPatch_watched hm h₀ he₀ hv]
    by_cases hw : field patch "watchlist"=none
    · refine watched_congr fun s hs => ?_
      rw [applyWorkflowPatch_off hm hq hw (by decide) (by decide),
        applyWorkflowPatch_off hm h₀ hw (by decide) (by decide)]
      exact (hc.2 hw s hs).symm
    · rw [hlist hw]
  · have hmem : f ∈ firstFields ++ watchOnly::lastFields := by
      rcases hf with hf|hf
      · exact List.mem_append_left _ hf
      · exact List.mem_append_right _ (List.mem_cons_of_mem _ hf)
    obtain ⟨value,hr⟩ := hreads f hmem v hv
    obtain ⟨x,rfl⟩ := hfix v value hr
    rw [applyWorkflowPatch_fixed hm hq hf hv hr,applyWorkflowPatch_fixed hm h₀ hf hv hr]

end

/-! Proposals along a run. -/

/-- What a proposal says is true of the workflow it was tried on. -/
structure WorkflowProposal.Offered (p : WorkflowProposal) : Prop where
  keys : ∀ f ∈ p.patch, isProposal f.1 f.2
  before : p.before=valuesAt p.triedOn p.patch
  tried : p.status=.pending → ∃ now preview, applyWorkflowPatch p.triedOn p.patch now=.ok preview ∧
    preview.errors=[] ∧ p.after=valuesAt preview.next p.patch

/-- The same proposal, whatever has become of it. -/
def WorkflowProposal.Same (p q : WorkflowProposal) : Prop := q.id=p.id ∧ q.patch=p.patch ∧
  q.before=p.before ∧ q.after=p.after ∧ q.triedOn=p.triedOn ∧ (q.status=.pending → p.status=.pending)

section
variable {p q : WorkflowProposal}

theorem WorkflowProposal.Same.refl (p : WorkflowProposal) : p.Same p :=
  ⟨rfl,rfl,rfl,rfl,rfl,fun h => h⟩

theorem WorkflowProposal.Offered.same (h : p.Offered) (hs : p.Same q) : q.Offered := by
  obtain ⟨-,hp,hb,ha,ht,hst⟩ := hs
  refine ⟨by rw [hp]; exact h.keys,by rw [hb,ht,hp]; exact h.before,fun hq => ?_⟩
  rw [ha,ht,hp]
  exact h.tried (hst hq)

theorem WorkflowProposal.same_aged (p : WorkflowProposal) (now : ℕ) : p.Same (p.aged now) := by
  unfold aged
  split
  · exact ⟨rfl,rfl,rfl,rfl,rfl,nofun⟩
  · exact .refl p

theorem WorkflowProposal.same_resolved (p : WorkflowProposal) (errors : List String) (now : ℕ) :
    p.Same (p.resolved errors now) := by
  refine ⟨rfl,rfl,rfl,rfl,rfl,fun h => ?_⟩
  dsimp only [resolved] at h
  split_ifs at h

end

section
variable [Host]

theorem printOf_same {p q : WorkflowProposal} (h : p.Same q) (current : List (String × Value)) :
    State.printOf q current=State.printOf p current := by
  rw [State.printOf,State.printOf,h.1,h.2.1]

/-- Proposals say what is true, and the token of a proposal is bound to the values it shows. -/
structure Shown (s : State) : Prop where
  offered : ∀ id, ∀ p ∈ s.proposals.lookup id, p.Offered
  bound : ∀ t ∈ s.runtime.confirmations, t.kind=.workflowProposal →
    ∃ p ∈ s.proposals.lookup t.targetId, t.fingerprint=State.printOf p p.before

section
variable {s s' : State} {p q : WorkflowProposal} {patch : Patch}

/-- Tokens may be dropped, and each proposal replaced by a later version of it. -/
theorem Shown.later (h : Shown s) (hc : s'.runtime.confirmations ⊆ s.runtime.confirmations)
    (hold : ∀ id, ∀ p ∈ s.proposals.lookup id, ∃ q ∈ s'.proposals.lookup id, p.Same q)
    (hnew : ∀ id, ∀ q ∈ s'.proposals.lookup id, q.Offered ∨ ∃ p ∈ s.proposals.lookup id, p.Same q) :
    Shown s' := by
  refine ⟨fun id q hq => ?_,fun t ht hk => ?_⟩
  · obtain ho|⟨p,hp,hsame⟩ := hnew id q hq
    · exact ho
    · exact (h.offered id p hp).same hsame
  · obtain ⟨p,hp,hf⟩ := h.bound t (hc ht) hk
    obtain ⟨q,hq,hsame⟩ := hold _ p hp
    exact ⟨q,hq,by rw [hf,printOf_same hsame,hsame.2.2.1]⟩

theorem Shown.frame (h : Shown s) (hp : s'.proposals=s.proposals)
    (hc : s'.runtime.confirmations ⊆ s.runtime.confirmations) : Shown s' :=
  h.later hc (fun _ p hl => ⟨p,hp ▸ hl,.refl p⟩) fun _ q hl => .inr ⟨q,hp ▸ hl,.refl q⟩

/-- A proposal is saved, under a new id or over an earlier version of itself. -/
theorem Shown.saveProposal (h : Shown s)
    (hq : s.proposals.lookup q.id=none ∧ q.Offered ∨ ∃ p ∈ s.proposals.lookup q.id, p.Same q) :
    Shown (s.saveProposal q) := by
  refine h.later (List.Subset.refl _) (fun id p hp => ?_) fun id r hr => ?_
  · rw [State.saveProposal,Keyed.Table.lookup_upsert]
    split
    · next hid =>
      subst hid
      rcases hq with ⟨hn,-⟩|⟨p',hp',hsame⟩
      · rw [hn] at hp
        cases hp
      · rw [hp'] at hp
        cases hp
        exact ⟨q,rfl,hsame⟩
    · exact ⟨p,hp,.refl p⟩
  · rw [State.saveProposal,Option.mem_def,Keyed.Table.lookup_upsert] at hr
    split at hr
    · next hid =>
      subst hid
      cases hr
      exact hq.imp And.right id
    · exact .inr ⟨r,hr,.refl r⟩

omit [Host] in
theorem setWorkflow_frame {errors : List String} (h : s.setWorkflow patch=.ok (errors,s')) :
    s'.proposals=s.proposals ∧ s'.runtime=s.runtime := by
  obtain ⟨p,-,-,⟨-,rfl⟩|rfl⟩ := setWorkflow_ok h
  · exact ⟨rfl,rfl⟩
  · exact ⟨rfl,rfl⟩

theorem Shown.setWorkflow {errors : List String} (h : Shown s)
    (hs : s.setWorkflow patch=.ok (errors,s')) : Shown s' := by
  obtain ⟨hp,hr⟩ := setWorkflow_frame hs
  exact h.frame hp (by rw [hr]; exact List.Subset.refl _)

theorem Shown.propose {id : String} {sid : Option String} (h : Shown s)
    (hp : ∀ f ∈ patch, isProposal f.1 f.2) (hn : s.proposals.lookup id=none)
    (hs : s.proposeWorkflow patch id sid=.ok s') : Shown s' := by
  obtain ⟨preview,p,hpre,rfl,rfl,rfl,hb,ha,ht,he⟩ := proposeWorkflow_ok hs
  refine h.saveProposal (.inl ⟨hn,hp,by rw [hb,ht],fun hst => ?_⟩)
  exact ⟨_,preview,by rw [ht]; exact hpre,he hst,ha⟩

end

/-- The condition on an event: proposals get new ids; a token is issued while the keys of the patch have
the values the proposal shows; at the confirmation the patch meets what it met when it was tried, and a
digest that is the one of the values shown is of these values. -/
def Attended (s : State) : Event → Prop
  | .chat patch id _ => (splitWorkflowPatch patch).proposal=[] ∨ s.proposals.lookup id=none
  | .issue id => ∀ p ∈ (s.pendingProposal id).toOption, valuesAt s.workflow p.patch=p.before
  | .apply id _ => ∀ p ∈ (s.pendingProposal id).toOption, SameContext p.patch p.triedOn s.workflow ∧
    (s.proposalFingerprint p=State.printOf p p.before → valuesAt s.workflow p.patch=p.before)
  | _ => True

instance (s : State) (e : Event) : Decidable (Attended s e) := match e with
  | .chat _ _ _ => inferInstanceAs (Decidable (_ ∨ _))
  | .issue id => inferInstanceAs (Decidable (∀ p ∈ (s.pendingProposal id).toOption,_))
  | .apply id _ => inferInstanceAs (Decidable (∀ p ∈ (s.pendingProposal id).toOption,_))
  | .form _ => inferInstanceAs (Decidable True)
  | .switched _ => inferInstanceAs (Decidable True)
  | .list => inferInstanceAs (Decidable True)
  | .reject _ => inferInstanceAs (Decidable True)
  | .wait _ => inferInstanceAs (Decidable True)

/-- A confirmation changes the keys of the patch from the values shown to the values shown, or nothing;
a rejection changes nothing. -/
def AsShown (s : State) : Event → Prop
  | .apply id nonce =>
    let r := s.applyWorkflowProposal id nonce
    (∀ p ∈ r.1.toOption, p.status=.applied →
      valuesAt s.workflow p.patch=p.before ∧ valuesAt r.2.workflow p.patch=p.after) ∧
    ((∀ p ∈ r.1.toOption, p.status ≠ .applied) → r.2.workflow=s.workflow)
  | .reject id => (step s (.reject id)).workflow=s.workflow
  | _ => True

section
variable {s : State} {e : Event}

theorem Shown.issue {id : String} (h : Shown s) (ha : Attended s (.issue id)) :
    Shown (step s (.issue id)) := by
  obtain hs|⟨p,hp,hs⟩ := step_issue s id
  · rw [hs]
    exact h
  · rw [hs]
    refine ⟨h.offered,fun t ht hk => ?_⟩
    obtain ⟨hl,-,-⟩ := pendingProposal_ok hp
    have hmem : t ∈ s.runtime.sweepTokens.confirmations ++
        [(s.runtime.issueToken .workflowProposal p.id (s.proposalFingerprint p)).1] := ht
    rcases List.mem_append.mp hmem with ht|ht
    · exact h.bound t (List.filter_sublist.subset ht) hk
    · obtain rfl := List.mem_singleton.mp ht
      have hid : p.id=id := Keyed.Table.key_of_lookup hl
      have hvalues : valuesAt s.workflow p.patch=p.before := ha p (by rw [hp]; rfl)
      refine ⟨p,?_,?_⟩
      · show s.proposals.lookup p.id=some p
        rw [hid]
        exact hl
      · show s.proposalFingerprint p=_
        rw [State.proposalFingerprint,hvalues]

omit [Host] in
/-- The patch of a pending proposal, where it meets what it met when it was tried. -/
theorem WorkflowProposal.Offered.applied {s₁ : State} {p : WorkflowProposal} {errors : List String}
    (ho : p.Offered) (hp : p.status=.pending) (hc : SameContext p.patch p.triedOn s.workflow)
    (hs : s.setWorkflow p.patch=.ok (errors,s₁)) :
    errors=[] ∧ valuesAt s₁.workflow p.patch=p.after := by
  obtain ⟨now,preview,hpre,he,ha⟩ := ho.tried hp
  obtain ⟨q,hq,rfl,hat⟩ := setWorkflow_at hs
  obtain ⟨q',hq',he',hk⟩ := applyWorkflowPatch_alike ho.keys hpre he hc
  rw [hq] at hq'
  cases hq'
  refine ⟨he',?_⟩
  rw [ha]
  refine List.map_congr_left fun f hf => congrArg (Prod.mk f.1) ?_
  have hkey : f.1 ∈ workflowKeys ∧ f.1 ≠ "updated_at" ∧ f.1 ≠ "execution" := by
    have hall : ∀ k ∈ directWorkflowKeys ++ proposalWorkflowKeys ++ ["paused"],
        k ∈ workflowKeys ∧ k ≠ "updated_at" ∧ k ≠ "execution" := by decide +kernel
    exact hall _ (mem_chatKeys (.inr (ho.keys f hf)))
  exact (hat _ hkey.1 hkey.2.1 hkey.2.2).trans (hk _ (List.mem_map_of_mem hf))

theorem Shown.chat {patch : Patch} {id : String} {sid : Option String} (h : Shown s)
    (ha : Attended s (.chat patch id sid)) : Shown (Settings.step s (.chat patch id sid)) := by
  obtain ⟨s₁,hd,hp⟩ := chatSetWorkflow_parts s patch id sid
  have hs₁ : Shown s₁ ∧ s₁.proposals=s.proposals := by
    rcases hd with rfl|⟨errors,hd⟩
    · exact ⟨h,rfl⟩
    · exact ⟨h.setWorkflow hd,(setWorkflow_frame hd).1⟩
  rcases hp with hp|⟨hne,hp⟩
  · rw [show Settings.step s (.chat patch id sid)=s₁ from hp]
    exact hs₁.1
  · refine hs₁.1.propose (fun f hf => ?_) ?_ hp
    · simpa using (List.mem_filter.mp hf).2
    · rw [hs₁.2]
      exact ha.resolve_left hne

theorem Shown.form {patch : Patch} (h : Shown s) : Shown (match s.setWorkflow patch with
    | .ok r => r.2
    | .error _ => s) := by
  split
  · next r hr => exact h.setWorkflow hr
  · exact h

theorem Shown.apply {id : String} {nonce : Option String} (h : Shown s) :
    Shown (Settings.step s (.apply id nonce)) := by
  have htokens : ∀ cs, cs ⊆ s.runtime.confirmations → Shown (s.withTokens cs) := fun cs hcs =>
    h.frame rfl hcs
  obtain ⟨why,cs,hcs,hs⟩|⟨p,cs,errors,s₁,hcs,hp,-,hset,hs⟩ := applyWorkflowProposal_cases s id nonce
  · rw [show Settings.step s (.apply id nonce)=s.withTokens cs from congrArg Prod.snd hs]
    exact htokens cs hcs
  · rw [show Settings.step s (.apply id nonce)=_ from congrArg Prod.snd hs]
    obtain ⟨hl,-,-⟩ := pendingProposal_ok hp
    have hid : p.id=id := Keyed.Table.key_of_lookup hl
    refine ((htokens cs hcs).setWorkflow hset).saveProposal (.inr ⟨p,?_,p.same_resolved _ _⟩)
    rw [(setWorkflow_frame hset).1]
    show s.proposals.lookup p.id=some p
    rw [hid]
    exact hl

/-- Every event under the condition keeps what is shown true. -/
theorem Shown.step (h : Shown s) (ha : Attended s e) : Shown (step s e) := by
  cases e with
  | chat patch id sid => exact h.chat ha
  | form patch => exact h.form
  | switched kind =>
    exact Shown.form (s := { s with runtime := { s.runtime with backend := kind } })
      (h.frame rfl (List.Subset.refl _))
  | list =>
    refine h.later (List.Subset.refl _) (fun id p hp => ?_) fun id q hq => ?_
    · rw [step_list,hp]
      exact ⟨_,rfl,p.same_aged _⟩
    · rw [step_list] at hq
      obtain ⟨p,hp,rfl⟩ := Option.map_eq_some_iff.mp hq
      exact .inr ⟨p,hp,p.same_aged _⟩
  | issue id => exact h.issue ha
  | apply id nonce => exact h.apply
  | reject id =>
    obtain hs|⟨p,hl,hs⟩ := step_reject s id
    · rw [hs]
      exact h
    · rw [hs]
      have hid : p.id=id := Keyed.Table.key_of_lookup hl
      refine h.saveProposal (.inr ⟨p,?_,rfl,rfl,rfl,rfl,rfl,nofun⟩)
      show s.proposals.lookup p.id=some p
      rw [hid]
      exact hl
  | wait ms => exact h.frame rfl (List.Subset.refl _)

/-- A confirmation that ends finds the values shown, and leaves the values shown. -/
theorem Shown.asShown (h : Shown s) (ha : Attended s e) : AsShown s e := by
  cases e with
  | apply id nonce =>
    dsimp only [AsShown]
    obtain ⟨why,cs,hcs,hs⟩|⟨p,cs,errors,s₁,hcs,hp,hc,hset,hs⟩ := applyWorkflowProposal_cases s id nonce
    · rw [hs]
      exact ⟨nofun,fun _ => rfl⟩
    · obtain ⟨hl,hpend,-⟩ := pendingProposal_ok hp
      obtain ⟨hctx,hdigest⟩ := ha p (by rw [hp]; rfl)
      obtain ⟨t,ht,-,-,hk,hid,hf,-⟩ := consumeToken_ok hc
      obtain ⟨p',hp',hbound⟩ := h.bound t ht hk
      obtain rfl : p'=p := by
        rw [hid,Keyed.Table.key_of_lookup hl,hl] at hp'
        exact (Option.some.inj hp').symm
      obtain ⟨rfl,hafter⟩ := (h.offered id p' hl).applied (s := s.withTokens cs) hpend hctx hset
      rw [hs]
      refine ⟨fun q hq _ => ?_,fun hn => absurd rfl (hn _ rfl)⟩
      cases hq
      exact ⟨hdigest (hf.symm.trans hbound),hafter⟩
  | reject id =>
    obtain hs|⟨p,-,hs⟩ := step_reject s id
    · exact congrArg State.workflow hs
    · exact (congrArg State.workflow hs).trans rfl
  | _ => trivial

/-- Whatever is proposed, shown, confirmed and rejected: where the conditions hold, a proposal is
applied exactly as it was shown, or not at all. -/
theorem applied_as_shown {runtime : Runtime} {stored : Workflow} {es : List Event}
    (h : Throughout Settings.step Attended (boot runtime stored) es) :
    Throughout Settings.step AsShown (boot runtime stored) es :=
  throughout_of_invariant (I := Shown) (fun _ _ hs ha => hs.step ha) (fun _ _ hs ha => hs.asShown ha)
    ⟨fun _ _ hp => (by cases hp),fun _ ht => (by cases ht)⟩ h

end
end

section scripts

/-- The chat proposes another time frame, and the user fetches the token and brings it. -/
def confirmedFrame : List Event := proposedFrame ++ [.apply "wfp-1" (some "nonce-0")]

/-- The same, but the user changes the time frame in the form before fetching the token. -/
def overtakenFrame : List Event :=
  [.chat [("timeframe",.str "1h")] "wfp-1" none,.form [("timeframe",.str "5m")],.issue "wfp-1",
    .apply "wfp-1" (some "nonce-0")]

end scripts

/-- The conditions hold along a run that applies a proposal. -/
theorem confirmedFrame_asShown : letI := openDigest
    Throughout step AsShown (boot demoRuntime storedWorkflow) confirmedFrame ∧
      (run step (boot demoRuntime storedWorkflow) confirmedFrame).workflow "timeframe"=.str "1h" := by
  have hattended : letI := openDigest
      Throughout step Attended (boot demoRuntime storedWorkflow) confirmedFrame := by
    decide +kernel
  exact ⟨@applied_as_shown openDigest demoRuntime storedWorkflow confirmedFrame hattended,by
    decide +kernel⟩

/-- The token is bound to the values at the time it is fetched, not to those that the proposal shows. -/
theorem overtakenFrame_applied : ¬∀ (h : Host) (runtime : Runtime) (stored : Workflow)
    (es : List Event), Throughout (@step h) (@AsShown h) (boot runtime stored) es := by
  intro hall
  have hshown := hall openDigest demoRuntime storedWorkflow overtakenFrame
  have happlied := hshown.2.2.2.1.1
  have hwrong : letI := openDigest
      let s := run step (boot demoRuntime storedWorkflow) (overtakenFrame.take 3)
      ∃ p ∈ (s.applyWorkflowProposal "wfp-1" (some "nonce-0")).1.toOption,
        p.status=.applied ∧ valuesAt s.workflow p.patch ≠ p.before := by
    decide +kernel
  obtain ⟨p,hp,hst,hne⟩ := hwrong
  exact hne (happlied p hp hst).1

end TradeGate.Settings
