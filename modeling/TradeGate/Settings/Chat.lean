import TradeGate.Model.System
import TradeGate.Settings.Patch

/-! What the chat can reach.  A patch from the chat changes a few harmless keys at once; other keys
change only where the user brings the token of a proposal, and the rest never. -/
namespace TradeGate.Settings
open Js Machine

/-- The keys that the chat can reach, by itself or with the user, and the stamp of the last change. -/
def chatKeys : List String := directWorkflowKeys ++ proposalWorkflowKeys ++ ["paused","updated_at"]

/-- The event is the chat's, or an answer of the user to a proposal. -/
def Event.byChat : Event → Prop
  | .form _ => False
  | .switched _ => False
  | _ => True

instance : DecidablePred Event.byChat
  | .form _ => inferInstanceAs (Decidable False)
  | .switched _ => inferInstanceAs (Decidable False)
  | .chat _ _ _ => inferInstanceAs (Decidable True)
  | .list => inferInstanceAs (Decidable True)
  | .issue _ => inferInstanceAs (Decidable True)
  | .apply _ _ => inferInstanceAs (Decidable True)
  | .reject _ => inferInstanceAs (Decidable True)
  | .wait _ => inferInstanceAs (Decidable True)

theorem field_mem {patch : Patch} {k : String} {v : Value} (h : field patch k=some v) : (k,v) ∈ patch := by
  obtain ⟨l₁,l₂,rfl,-⟩ := List.lookup_eq_some_iff.mp h
  simp

theorem field_none {patch : Patch} {k : String} (h : ∀ v, (k,v) ∉ patch) : field patch k=none := by
  by_contra hn
  obtain ⟨v,hv⟩ := Option.ne_none_iff_exists'.mp hn
  exact h v (field_mem hv)

/-- A patch that names keys of the chat only. -/
def Patch.Mild (patch : Patch) : Prop := ∀ f ∈ patch, isDirect f.1 f.2 ∨ isProposal f.1 f.2

theorem mem_chatKeys {k : String} {v : Value} (h : isDirect k v ∨ isProposal k v) :
    k ∈ directWorkflowKeys ++ proposalWorkflowKeys ++ ["paused"] := by
  rcases h with (h|⟨-,rfl,-⟩)|⟨-,h|⟨rfl,-⟩⟩
  · simp [h]
  · simp
  · simp [h]
  · simp

theorem Patch.Mild.off {patch : Patch} (h : patch.Mild) {k : String}
    (hk : k ∉ directWorkflowKeys ++ proposalWorkflowKeys ++ ["paused"]) : field patch k=none :=
  field_none fun _ hv => hk (mem_chatKeys (h _ hv))

section
variable {s s' : State} {patch : Patch} {errors : List String} {k : String}

/-- `execution` names the backend that runs. -/
def State.Pinned (s : State) : Prop := s.workflow "execution"=.str s.runtime.backend.text

/-- What a patch leaves alone: the keys it does not name, but for the stamp and for symbols that are
watched only and not on the watchlist. -/
structure Spares (patch : Patch) (w w' : Workflow) : Prop where
  other : ∀ k, field patch k=none → k ≠ "watch_only" → k ≠ "updated_at" → w' k=w k
  watchOnly : field patch "watch_only"=none → field patch "watchlist"=none →
    w' "watch_only"=w "watch_only" ∨ w' "watch_only"=keepWatched w "watch_only"

theorem setWorkflow_ok (h : s.setWorkflow patch=.ok (errors,s')) : ∃ p,
    applyWorkflowPatch s.workflow patch s.runtime.now=.ok p ∧ errors=p.errors ∧
      let next := Function.update p.next "execution" (.str s.runtime.backend.text)
      (changedKeys next s.workflow=[] ∧ s'=s ∨ s'={ s with workflow := next }) := by
  obtain ⟨p,hp,h⟩ := bind_ok.mp h
  cases h
  refine ⟨p,hp,rfl,?_⟩
  dsimp only
  split
  · next hc => exact .inl ⟨hc,rfl⟩
  · exact .inr rfl

theorem setWorkflow_spares (h : s.setWorkflow patch=.ok (errors,s')) (hp : patch.Mild) (hs : s.Pinned) :
    s'.runtime=s.runtime ∧ s'.proposals=s.proposals ∧ s'.Pinned ∧
      Spares patch s.workflow s'.workflow := by
  obtain ⟨p,ha,-,⟨-,rfl⟩|rfl⟩ := setWorkflow_ok h
  · exact ⟨rfl,rfl,hs,fun _ _ _ _ => rfl,fun _ _ => .inl rfl⟩
  · have hm : field patch "watchlist_max"=none := hp.off (by decide)
    have hex : Function.update p.next "execution" (Value.str s.runtime.backend.text) "execution"=
      .str s.runtime.backend.text := Function.update_self _ _ _
    have hoff : ∀ k, k ≠ "execution" →
        Function.update p.next "execution" (Value.str s.runtime.backend.text) k=p.next k :=
      fun k hk => Function.update_of_ne hk _ _
    refine ⟨rfl,rfl,hex,fun k hk ho hu => ?_,fun hk hl => .inr ?_⟩
    · by_cases he : k="execution"
      · rw [he]
        exact hex.trans hs.symm
      · exact (hoff k he).trans (applyWorkflowPatch_off hm ha hk ho hu)
    · exact (hoff _ (by decide)).trans (applyWorkflowPatch_watchOnly hm ha hk hl)

/-- The keys of the workflow have the values of the patched one, also where nothing was saved. -/
theorem setWorkflow_at (h : s.setWorkflow patch=.ok (errors,s')) : ∃ p,
    applyWorkflowPatch s.workflow patch s.runtime.now=.ok p ∧ errors=p.errors ∧
      ∀ k ∈ workflowKeys, k ≠ "updated_at" → k ≠ "execution" → s'.workflow k=p.next k := by
  obtain ⟨p,hp,he,hs'⟩ := setWorkflow_ok h
  refine ⟨p,hp,he,fun k hk hu hx => ?_⟩
  have hupd : Function.update p.next "execution" (Value.str s.runtime.backend.text) k=p.next k :=
    Function.update_of_ne hx _ _
  rcases hs' with ⟨hc,rfl⟩|rfl
  · -- no key has another value, so neither has this one
    by_contra hne
    have hmem : k ∈ changedKeys
        (Function.update p.next "execution" (Value.str s'.runtime.backend.text)) s'.workflow :=
      List.mem_filter.mpr ⟨hk,by
        rw [hupd]
        simpa [hu] using fun h => hne h.symm⟩
    rw [hc] at hmem
    cases hmem
  · exact hupd

/-- A pause that is applied is one. -/
theorem setWorkflow_paused (h : s.setWorkflow patch=.ok (errors,s')) (hp : patch.Mild)
    (hk : field patch "paused"=some (.bool true)) : s'.workflow "paused"=.bool true := by
  obtain ⟨p,ha,-,hs'⟩ := setWorkflow_at h
  obtain ⟨e,value,hr,-,hx⟩ := applyWorkflowPatch_last (f := switch "paused") (w := s.workflow)
    (hp.off (by decide)) ha List.mem_cons_self hk
  cases hr
  have hnext : p.next "paused"=.bool true := by
    refine hx (fun _ x hx _ _ => ?_) (fun _ => .bool true) rfl
    cases hx
    rfl
  exact (hs' _ (by decide +kernel) (by decide) (by decide)).trans hnext

end

/-! The tokens. -/

theorem consumeToken_confirmations (s : Runtime) (nonce : Option String) (kind : ConfirmKind)
    (targetId fingerprint : String) : ∃ cs, cs ⊆ s.confirmations ∧
      (s.consumeToken nonce kind targetId fingerprint).2={ s with confirmations := cs } := by
  have hsweep : s.sweepTokens.confirmations ⊆ s.confirmations := List.filter_sublist.subset
  unfold Runtime.consumeToken
  split
  · exact ⟨_,List.Subset.refl _,rfl⟩
  · split
    · exact ⟨_,hsweep,rfl⟩
    · split_ifs
      · exact ⟨_,hsweep,rfl⟩
      · exact ⟨_,hsweep,rfl⟩
      · exact ⟨_,hsweep,rfl⟩
      · exact ⟨_,List.Subset.trans List.filter_sublist.subset hsweep,rfl⟩

/-- A token that is consumed was issued for the target and the fingerprint, is not too old, and is
deleted. -/
theorem consumeToken_ok {s s' : Runtime} {nonce : Option String} {kind : ConfirmKind}
    {targetId fingerprint : String}
    (h : s.consumeToken nonce kind targetId fingerprint=(.ok (),s')) : ∃ t ∈ s.confirmations,
      nonce=some t.nonce ∧ s.now<t.expiresAt ∧ t.kind=kind ∧ t.targetId=targetId ∧
      t.fingerprint=fingerprint ∧ ∀ u ∈ s'.confirmations, u.nonce ≠ t.nonce := by
  unfold Runtime.consumeToken at h
  split at h
  · cases h
  · next n hn =>
    split at h
    · cases h
    · next t ht =>
      split_ifs at h with h₁ h₂ h₃
      · cases h
      · cases h
      · cases h
      · cases h
        rw [not_or,not_not,not_not] at h₂
        have hnonce : t.nonce=n := by simpa using List.find?_some ht
        refine ⟨t,List.mem_of_find?_eq_some ht,?_,not_le.mp h₁,h₂.1,h₂.2,not_not.mp h₃,fun u hu => ?_⟩
        · rw [(Option.filter_eq_some_iff.mp hn).1,hnonce]
        · rw [hnonce]
          simpa using (List.mem_filter.mp hu).2

/-! Steps. -/

/-- `execution` is pinned, and what was proposed stays within the keys of proposals. -/
structure Tame (s : State) : Prop where
  pinned : s.Pinned
  mild : ∀ id, ∀ p ∈ s.proposals.lookup id, ∀ f ∈ p.patch, isProposal f.1 f.2

section
variable [Host] {s s' : State} {p : WorkflowProposal} {e : Event}

/-- A one-time token for the proposal, and for the values under its keys, is used up. -/
def Confirmed (s s' : State) (p : WorkflowProposal) (nonce : Option String) : Prop :=
  ∃ t ∈ s.runtime.confirmations, nonce=some t.nonce ∧ s.runtime.now<t.expiresAt ∧
    t.kind=.workflowProposal ∧ t.targetId=p.id ∧ t.fingerprint=s.proposalFingerprint p ∧
    ∀ u ∈ s'.runtime.confirmations, u.nonce ≠ t.nonce

/-- The event is the confirmation of a pending proposal that names one of the keys. -/
def ByToken (s : State) (e : Event) (ks : List String) : Prop :=
  ∃ id nonce p, e=.apply id nonce ∧ s.pendingProposal id=.ok p ∧ Confirmed s (step s e) p nonce ∧
    ∃ k ∈ ks, k ∈ p.patch.map Prod.fst

omit [Host] in
theorem pendingProposal_ok {id : String} (h : s.pendingProposal id=.ok p) :
    s.proposals.lookup id=some p ∧ p.status=.pending ∧ s.runtime.now<p.expiresAt := by
  unfold State.pendingProposal at h
  split at h
  · cases h
  · next q hq =>
    split_ifs at h with h₁ h₂
    cases h
    exact ⟨hq,not_not.mp h₁,not_le.mp h₂⟩

omit [Host] in
theorem Tame.saveProposal (h : Tame s) (hp : ∀ f ∈ p.patch, isProposal f.1 f.2) :
    Tame (s.saveProposal p) := by
  refine ⟨h.pinned,fun id q hq => ?_⟩
  rw [State.saveProposal,Option.mem_def,Keyed.Table.lookup_upsert] at hq
  split at hq
  · cases hq
    exact hp
  · exact h.mild id q hq

omit [Host] in
/-- A patch of the chat: its direct part is applied, and the rest kept as a proposal. -/
theorem chatSetWorkflow_parts (s : State) (patch : Patch) (id : String) (sid : Option String) : ∃ s₁,
    (s₁=s ∨ ∃ errors, s.setWorkflow (splitWorkflowPatch patch).direct=.ok (errors,s₁)) ∧
      (s.chatSetWorkflow patch id sid=s₁ ∨ (splitWorkflowPatch patch).proposal ≠ [] ∧
        s₁.proposeWorkflow (splitWorkflowPatch patch).proposal id sid=
          .ok (s.chatSetWorkflow patch id sid)) := by
  unfold State.chatSetWorkflow
  dsimp only
  have hdirect : ∀ {r}, (if (splitWorkflowPatch patch).direct=[] then .ok ([],s)
      else s.setWorkflow (splitWorkflowPatch patch).direct)=Except.ok r →
      r.2=s ∨ ∃ errors, s.setWorkflow (splitWorkflowPatch patch).direct=.ok (errors,r.2) := by
    intro r h
    split_ifs at h
    · cases h
      exact .inl rfl
    · exact .inr ⟨r.1,h⟩
  split
  · exact ⟨s,.inl rfl,.inl rfl⟩
  · next errors s₁ hs₁ =>
    refine ⟨s₁,hdirect hs₁,?_⟩
    split
    · exact .inl rfl
    · next s₂ hs₂ =>
      split_ifs at hs₂ with hn
      · cases hs₂
        exact .inl rfl
      · exact .inr ⟨hn,hs₂⟩

omit [Host] in
/-- What a proposal records. -/
theorem proposeWorkflow_ok {patch : Patch} {id : String} {sid : Option String}
    (h : s.proposeWorkflow patch id sid=.ok s') : ∃ preview p,
      applyWorkflowPatch s.workflow patch s.runtime.now=.ok preview ∧ s'=s.saveProposal p ∧ p.id=id ∧
      p.patch=patch ∧ p.before=valuesAt s.workflow patch ∧ p.after=valuesAt preview.next patch ∧
      p.triedOn=s.workflow ∧ (p.status=.pending → preview.errors=[]) := by
  obtain ⟨preview,hpre,h⟩ := bind_ok.mp h
  cases h
  refine ⟨preview,_,hpre,rfl,rfl,rfl,rfl,rfl,rfl,fun hs => ?_⟩
  by_contra hn
  rw [if_neg hn] at hs
  cases hs

omit [Host] in
theorem isDirect_mild {patch : Patch} (h : ∀ f ∈ patch, isDirect f.1 f.2) : patch.Mild :=
  fun f hf => .inl (h f hf)

/-- What an event of the chat or of its user does to the workflow: nothing, the direct part of a
patch, or a confirmed proposal. -/
inductive Reach (s : State) (e : Event) : Prop
  | kept (h : (step s e).workflow=s.workflow)
  | direct (patch : Patch) (hp : ∀ f ∈ patch, isDirect f.1 f.2)
      (h : Spares patch s.workflow (step s e).workflow)
      (paused : field patch "paused"=some (.bool true) → (step s e).workflow "paused"=.bool true)
  | confirmed (id : String) (nonce : Option String) (p : WorkflowProposal) (he : e=.apply id nonce)
      (hp : s.pendingProposal id=.ok p) (hc : Confirmed s (step s e) p nonce)
      (mild : ∀ f ∈ p.patch, isProposal f.1 f.2) (h : Spares p.patch s.workflow (step s e).workflow)

theorem Tame.chat (h : Tame s) (patch : Patch) (id : String) (sid : Option String) :
    Tame (step s (.chat patch id sid)) ∧ Reach s (.chat patch id sid) := by
  obtain ⟨s₁,hd,hp⟩ := chatSetWorkflow_parts s patch id sid
  have hdir : ∀ f ∈ (splitWorkflowPatch patch).direct, isDirect f.1 f.2 := fun f hf => by
    simpa using (List.mem_filter.mp hf).2
  have hprop : ∀ f ∈ (splitWorkflowPatch patch).proposal, isProposal f.1 f.2 := fun f hf => by
    simpa using (List.mem_filter.mp hf).2
  have hs₁ : Tame s₁ := by
    rcases hd with rfl|⟨errors,hd⟩
    · exact h
    · obtain ⟨-,hps,hpin,-⟩ := setWorkflow_spares hd (isDirect_mild hdir) h.pinned
      exact ⟨hpin,by rw [hps]; exact h.mild⟩
  have hres : Tame (step s (.chat patch id sid)) ∧
      (step s (.chat patch id sid)).workflow=s₁.workflow := by
    rcases hp with hp|⟨-,hp⟩
    · rw [show step s (.chat patch id sid)=s₁ from hp]
      exact ⟨hs₁,rfl⟩
    · obtain ⟨-,p,-,hs',-,hpatch,-⟩ := proposeWorkflow_ok hp
      rw [show step s (.chat patch id sid)=s₁.saveProposal p from hs']
      exact ⟨hs₁.saveProposal (by rw [hpatch]; exact hprop),rfl⟩
  refine ⟨hres.1,?_⟩
  rcases hd with rfl|⟨errors,hd⟩
  · exact .kept hres.2
  · obtain ⟨-,-,-,hsp⟩ := setWorkflow_spares hd (isDirect_mild hdir) h.pinned
    refine .direct _ hdir (by rw [hres.2]; exact hsp) fun hk => ?_
    rw [hres.2]
    exact setWorkflow_paused hd (isDirect_mild hdir) hk

/-- The settings with other tokens. -/
def State.withTokens (s : State) (cs : List ConfirmToken) : State :=
  { s with runtime := { s.runtime with confirmations := cs } }

/-- A confirmation throws, and at most drops tokens; or it uses one up and applies the patch. -/
theorem applyWorkflowProposal_cases (s : State) (id : String) (nonce : Option String) :
    (∃ why cs, cs ⊆ s.runtime.confirmations ∧
      s.applyWorkflowProposal id nonce=(.error why,s.withTokens cs)) ∨
    ∃ p cs errors s₁, cs ⊆ s.runtime.confirmations ∧ s.pendingProposal id=.ok p ∧
      s.runtime.consumeToken nonce .workflowProposal p.id (s.proposalFingerprint p)=
        (.ok (),(s.withTokens cs).runtime) ∧ (s.withTokens cs).setWorkflow p.patch=.ok (errors,s₁) ∧
      s.applyWorkflowProposal id nonce=
        (.ok (p.resolved errors s₁.runtime.now),s₁.saveProposal (p.resolved errors s₁.runtime.now)) := by
  unfold State.applyWorkflowProposal
  split
  · next e _ => exact .inl ⟨e,_,List.Subset.refl _,rfl⟩
  · next p hp =>
    obtain ⟨cs,hcs,hrt⟩ := consumeToken_confirmations s.runtime nonce .workflowProposal p.id
      (s.proposalFingerprint p)
    have hs : { s with runtime := (s.runtime.consumeToken nonce .workflowProposal p.id
        (s.proposalFingerprint p)).2 }=s.withTokens cs := by
      rw [hrt]
      rfl
    dsimp only
    rw [hs]
    split
    · next e _ => exact .inl ⟨e,cs,hcs,rfl⟩
    · next hc =>
      unfold State.applyConfirmed
      split
      · next e _ => exact .inl ⟨e,cs,hcs,rfl⟩
      · next errors s₁ hset =>
        refine .inr ⟨p,cs,errors,s₁,hcs,hp,Prod.ext hc ?_,hset,rfl⟩
        rw [hrt]
        rfl

theorem Tame.apply (h : Tame s) (id : String) (nonce : Option String) :
    Tame (step s (.apply id nonce)) ∧ Reach s (.apply id nonce) := by
  have htokens : ∀ cs, Tame (s.withTokens cs) := fun _ => ⟨h.pinned,h.mild⟩
  obtain ⟨why,cs,-,hs⟩|⟨p,cs,errors,s₁,-,hp,hc,hset,hs⟩ := applyWorkflowProposal_cases s id nonce
  · have hs' : step s (.apply id nonce)=s.withTokens cs := congrArg Prod.snd hs
    exact ⟨hs' ▸ htokens cs,.kept (by rw [hs']; rfl)⟩
  · have hs' : step s (.apply id nonce)=s₁.saveProposal (p.resolved errors s₁.runtime.now) :=
      congrArg Prod.snd hs
    obtain ⟨hl,-,-⟩ := pendingProposal_ok hp
    have hmild := h.mild id p hl
    obtain ⟨hr,hps,hpin,hsp⟩ := setWorkflow_spares hset (fun f hf => .inr (hmild f hf)) (htokens cs).pinned
    have hs₁ : Tame s₁ := ⟨hpin,by rw [hps]; exact h.mild⟩
    obtain ⟨t,ht,hn,hx,hk,hid,hf,hgone⟩ := consumeToken_ok hc
    refine ⟨hs' ▸ hs₁.saveProposal hmild,.confirmed id nonce p rfl hp
      ⟨t,ht,hn,hx,hk,hid,hf,?_⟩ hmild (by rw [hs']; exact hsp)⟩
    rw [hs',show (s₁.saveProposal _).runtime=(s.withTokens cs).runtime from hr]
    exact hgone

/-- A token is issued for a pending proposal. -/
theorem step_issue (s : State) (id : String) : step s (.issue id)=s ∨ ∃ p,
    s.pendingProposal id=.ok p ∧ step s (.issue id)=
      { s with runtime := (s.runtime.issueToken .workflowProposal p.id (s.proposalFingerprint p)).2 } := by
  show (s.issueProposalConfirmation id).toOption.getD s=s ∨ ∃ p, _ ∧
    (s.issueProposalConfirmation id).toOption.getD s=_
  unfold State.issueProposalConfirmation
  cases hp : s.pendingProposal id with
  | error _ => exact .inl rfl
  | ok p => exact .inr ⟨p,rfl,rfl⟩

/-- A pending proposal is rejected. -/
theorem step_reject (s : State) (id : String) : step s (.reject id)=s ∨ ∃ p,
    s.proposals.lookup id=some p ∧ step s (.reject id)=
      s.saveProposal { p with status := .rejected, resolvedAt := some s.runtime.now } := by
  show (s.rejectWorkflowProposal id).toOption.getD s=s ∨ ∃ p, _ ∧
    (s.rejectWorkflowProposal id).toOption.getD s=_
  unfold State.rejectWorkflowProposal
  cases hp : s.proposals.lookup id with
  | none => exact .inl rfl
  | some p =>
    dsimp only
    split_ifs
    · exact .inr ⟨p,rfl,rfl⟩
    · exact .inl rfl

theorem step_list (s : State) (id : String) :
    (step s .list).proposals.lookup id=(s.proposals.lookup id).map (·.aged s.runtime.now) :=
  s.proposals.lookup_mapRows _ (fun p => p.id_aged _) id

omit [Host] in
theorem patch_aged (p : WorkflowProposal) (now : ℕ) : (p.aged now).patch=p.patch := by
  unfold WorkflowProposal.aged
  split <;> rfl

/-- The chat's events keep the state tame, and reach as far as they may. -/
theorem Tame.step (h : Tame s) (he : e.byChat) : Tame (step s e) ∧ Reach s e := by
  cases e with
  | chat patch id sid => exact h.chat patch id sid
  | form patch => exact he.elim
  | switched kind => exact he.elim
  | list =>
    refine ⟨⟨h.pinned,fun id p hp => ?_⟩,.kept rfl⟩
    rw [step_list] at hp
    obtain ⟨q,hq,rfl⟩ := Option.map_eq_some_iff.mp hp
    rw [patch_aged]
    exact h.mild id q hq
  | issue id =>
    obtain hs|⟨p,-,hs⟩ := step_issue s id
    · exact ⟨hs.symm ▸ h,.kept (by rw [hs])⟩
    · exact ⟨hs.symm ▸ ⟨h.pinned,h.mild⟩,.kept (by rw [hs])⟩
  | apply id nonce => exact h.apply id nonce
  | reject id =>
    obtain hs|⟨p,hl,hs⟩ := step_reject s id
    · exact ⟨hs.symm ▸ h,.kept (by rw [hs])⟩
    · exact ⟨hs.symm ▸ h.saveProposal (h.mild id p hl),.kept (by rw [hs]; rfl)⟩
  | wait ms => exact ⟨⟨h.pinned,h.mild⟩,.kept rfl⟩

omit [Host] in
theorem field_none_of_not_mem {patch : Patch} {k : String} (h : k ∉ patch.map Prod.fst) :
    field patch k=none := field_none fun _ hv => h (List.mem_map_of_mem hv)

/-- Keys beyond the chat's keep their values. -/
theorem Reach.other (h : Reach s e) {k : String} (hk : k ∉ chatKeys) :
    (step s e).workflow k=s.workflow k := by
  have hkeys : k ∉ directWorkflowKeys ++ proposalWorkflowKeys ++ ["paused"] := fun hm => hk (by
    rw [chatKeys]
    simp only [List.mem_append,List.mem_cons] at hm ⊢
    tauto)
  have hne : k ≠ "watch_only" ∧ k ≠ "updated_at" :=
    ⟨fun he => hk (by rw [he]; decide),fun he => hk (by rw [he]; decide)⟩
  cases h with
  | kept h => rw [h]
  | direct patch hp h _ => exact h.other k ((isDirect_mild hp).off hkeys) hne.1 hne.2
  | confirmed id nonce p _ _ _ mild h =>
    exact h.other k (Patch.Mild.off (fun f hf => .inr (mild f hf)) hkeys) hne.1 hne.2

/-- No key of proposals changes and no pause ends unless the user confirms a proposal that names the
key; symbols that are watched only stay on the watchlist. -/
structure Guarded (s : State) (e : Event) : Prop where
  proposal : ∀ k ∈ proposalWorkflowKeys, k ≠ "watch_only" →
    (step s e).workflow k ≠ s.workflow k → ByToken s e [k]
  watchOnly : (step s e).workflow "watch_only" ≠ s.workflow "watch_only" →
    (step s e).workflow "watch_only"=keepWatched s.workflow "watch_only" ∨
      ByToken s e ["watch_only","watchlist"]
  paused : (step s e).workflow "paused" ≠ s.workflow "paused" →
    (step s e).workflow "paused"=.bool true ∨ ByToken s e ["paused"]

theorem Reach.guarded (h : Reach s e) : Guarded s e := by
  cases h with
  | kept h => exact ⟨fun k _ _ hne => absurd (by rw [h]) hne,fun hne => absurd (by rw [h]) hne,
      fun hne => absurd (by rw [h]) hne⟩
  | direct patch hp h hpaused =>
    have hoff : ∀ k ∈ proposalWorkflowKeys, field patch k=none := fun k hk =>
      field_none fun v hv => by
        have hdisj : ∀ k ∈ proposalWorkflowKeys, k ∉ directWorkflowKeys := by decide
        rcases hp _ hv with hd|⟨hn,-⟩
        · exact hdisj k hk hd
        · exact hn hk
    refine ⟨fun k hk hw hne => absurd (h.other k (hoff k hk) hw ?_) hne,fun hne => .inl ?_,fun hne => .inl ?_⟩
    · rintro rfl
      revert hk
      decide
    · exact (h.watchOnly (hoff "watch_only" (by decide)) (hoff "watchlist" (by decide))).resolve_left hne
    · refine hpaused ?_
      cases hv : field patch "paused" with
      | none => exact absurd (h.other _ hv (by decide) (by decide)) hne
      | some v =>
        rcases hp _ (field_mem hv) with hd|⟨-,-,hv⟩
        · exact absurd hd (show "paused" ∉ directWorkflowKeys by decide)
        · exact congrArg some hv
  | confirmed id nonce p he hp hc mild h =>
    have htoken : ∀ k, k ≠ "watch_only" → k ≠ "updated_at" → (step s e).workflow k ≠ s.workflow k →
        ByToken s e [k] := fun k hw hu hne => by
      refine ⟨id,nonce,p,he,hp,hc,k,by simp,?_⟩
      by_contra hk
      exact hne (h.other k (field_none_of_not_mem hk) hw hu)
    refine ⟨fun k hk hw => htoken k hw ?_,fun hne => ?_,fun hne => .inr (htoken _ (by decide) (by decide) hne)⟩
    · rintro rfl
      revert hk
      decide
    · by_cases hk : "watch_only" ∈ p.patch.map Prod.fst ∨ "watchlist" ∈ p.patch.map Prod.fst
      · rcases hk with hk|hk
        · exact .inr ⟨id,nonce,p,he,hp,hc,_,by simp,hk⟩
        · exact .inr ⟨id,nonce,p,he,hp,hc,_,by simp,hk⟩
      · rw [not_or] at hk
        exact .inl ((h.watchOnly (field_none_of_not_mem hk.1) (field_none_of_not_mem hk.2)).resolve_left hne)

/-- Whatever the chat patches and the user confirms or rejects: keys beyond the chat's keep the values
they started with, and the keys of proposals change with a token only. -/
theorem chat_spares_risk {runtime : Runtime} {stored : Workflow} {es : List Event}
    (hes : ∀ x ∈ es, x.byChat) (he : e.byChat) :
    (∀ k ∉ chatKeys, (step (run step (boot runtime stored) es) e).workflow k=
      (boot runtime stored).workflow k) ∧ Guarded (run step (boot runtime stored) es) e := by
  have hex : (boot runtime stored).workflow "execution"=.str runtime.backend.text := by
    simp [boot]
  have hboot : Tame (boot runtime stored) := ⟨hex,fun id p hp => by cases hp⟩
  obtain ⟨htame,hkept⟩ := run_invariant (P := fun _ (e : Event) => e.byChat)
    (I := fun s => Tame s ∧ ∀ k ∉ chatKeys, s.workflow k=(boot runtime stored).workflow k)
    (fun s e h he => ⟨(h.1.step he).1,fun k hk => ((h.1.step he).2.other hk).trans (h.2 k hk)⟩)
    ⟨hboot,fun _ _ => rfl⟩ (throughout_of_forall hes)
  have hreach := (htame.step he).2
  exact ⟨fun k hk => (hreach.other hk).trans (hkept k hk),hreach.guarded⟩

end

section scripts

/-- A digest that keeps the text. -/
@[reducible] def openDigest : Host where
  sha1Hex s := s
  sha256Hex s := s
  id := longerId
  id_fresh := longerId_fresh

/-- A gateway on a stored workflow that watches a symbol which is not on its watchlist. -/
def storedWorkflow : Workflow := fun k =>
  if k="watchlist" then .arr [.str "BTCUSDT"]
  else if k="watch_only" then .arr [.str "ETHUSDT"]
  else if k="watchlist_max" then rational 60
  else if k="timeframe" then .str "15m"
  else .null

def demoRuntime : Runtime :=
  Runtime.fresh .demo ⟨"0.5",5,.isolated,"15m",3,5,"3",true,true,false⟩ 1000

def narration : Event := .chat [("narrate",.bool false)] "wfp-1" none

/-- The chat proposes another time frame, and the user fetches the token. -/
def proposedFrame : List Event :=
  [.chat [("timeframe",.str "1h"),("leverage",rational 10)] "wfp-1" none,.issue "wfp-1"]

end scripts

/-- The time frame changes with the token of its proposal, and the leverage does not. -/
theorem frame_changed_with_token : letI := openDigest
    let s := run step (boot demoRuntime storedWorkflow) proposedFrame
    (step s (.apply "wfp-1" (some "nonce-0"))).workflow "leverage"=.null ∧
      ByToken s (.apply "wfp-1" (some "nonce-0")) ["timeframe"] := by
  have h := @chat_spares_risk openDigest (.apply "wfp-1" (some "nonce-0")) demoRuntime storedWorkflow
    proposedFrame (by decide) (by decide)
  have hnull : (boot demoRuntime storedWorkflow).workflow "leverage"=.null := by decide +kernel
  exact ⟨(h.1 "leverage" (by decide)).trans hnull,
    @Guarded.proposal openDigest _ _ h.2 "timeframe" (by decide) (by decide) (by decide +kernel)⟩

/-- Every change sets the stamp, and a patch of another key takes a symbol off that is watched only and
is not on the watchlist. -/
theorem narration_stamps_and_unwatches :
    ¬(∀ (h : Host) (runtime : Runtime) (stored : Workflow) (es : List Event), (∀ e ∈ es, e.byChat) →
      ∀ k ∉ directWorkflowKeys ++ proposalWorkflowKeys ++ ["paused"],
        (run (@step h) (boot runtime stored) es).workflow k=(boot runtime stored).workflow k) ∧
    ¬(∀ (h : Host) (runtime : Runtime) (stored : Workflow) (es : List Event) (e : Event),
      (∀ e ∈ es, e.byChat) → e.byChat → ∀ k ∈ proposalWorkflowKeys,
        (@step h (run (@step h) (boot runtime stored) es) e).workflow k ≠
          (run (@step h) (boot runtime stored) es).workflow k →
        ∃ ks, @ByToken h (run (@step h) (boot runtime stored) es) e ks) := by
  refine ⟨fun hall => ?_,fun hall => ?_⟩
  · have hkept := hall openDigest demoRuntime storedWorkflow [narration] (by decide)
      "updated_at" (by decide)
    exact absurd hkept (by decide +kernel)
  · obtain ⟨ks,id,nonce,p,he,-⟩ := hall openDigest demoRuntime storedWorkflow [] narration
      (by decide) (by decide) "watch_only" (by decide) (by decide +kernel)
    cases he

end TradeGate.Settings
