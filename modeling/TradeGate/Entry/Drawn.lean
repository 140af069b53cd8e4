import TradeGate.Custody.Requests

/-! The stored intents over time: an intent keeps its terms, what was decided stays decided, and a
thread has one opening intent. -/
namespace TradeGate
open Coop

/-- Stored intents stay, on their terms, and a decided one is not pending again; stored threads
stay. -/
structure Onward (s s' : Runtime) : Prop where
  intent : ∀ id, ∀ i ∈ s.intent id, ∃ i' ∈ s'.intent id, i'.terms=i.terms ∧
    (i.status ≠ .pendingApproval → i'.status ≠ .pendingApproval)
  thread : ∀ id, (s.thread id).isSome → (s'.thread id).isSome

/-- An opening intent is drawn for a stored thread, and no other one is drawn for the same. -/
structure Filed (s : Runtime) : Prop where
  stored : ∀ id, ∀ i ∈ s.intent id, i.kind=.open → ∀ tid ∈ i.threadId, (s.thread tid).isSome
  single : ∀ id jd, ∀ i ∈ s.intent id, ∀ j ∈ s.intent jd, i.kind=.open → j.kind=.open →
    ∀ tid ∈ i.threadId, tid ∈ j.threadId → id=jd

section
variable {s s' : Runtime} {i j x : DemoIntent} {t : StrategyThread}

theorem Onward.refl (s : Runtime) : Onward s s := ⟨fun _ i hi => ⟨i,hi,rfl,id⟩,fun _ h => h⟩

theorem Onward.trans {s'' : Runtime} (h : Onward s s') (h' : Onward s' s'') : Onward s s'' := by
  refine ⟨fun id i hi => ?_,fun id hid => h'.thread id (h.thread id hid)⟩
  obtain ⟨i',hi',ht,hs⟩ := h.intent id i hi
  obtain ⟨i'',hi'',ht',hs'⟩ := h'.intent id i' hi'
  exact ⟨i'',hi'',ht'.trans ht,fun hn => hs' (hs hn)⟩

theorem isSome_saveThread {id : String} (h : (s.thread id).isSome) (t : StrategyThread) :
    ((s.saveThread t).thread id).isSome := by
  rw [Runtime.thread_saveThread]
  split
  · rfl
  · exact h

theorem Onward.saveThread (s : Runtime) (t : StrategyThread) : Onward s (s.saveThread t) :=
  ⟨fun _ i hi => ⟨i,hi,rfl,id⟩,fun _ h => isSome_saveThread h t⟩

theorem Filed.saveThread (h : Filed s) (t : StrategyThread) : Filed (s.saveThread t) :=
  ⟨fun id i hi hk tid ht => isSome_saveThread (h.stored id i hi hk tid ht) t,h.single⟩

theorem terms_parts (h : j.terms=i.terms) :
    j.id=i.id ∧ j.kind=i.kind ∧ j.threadId=i.threadId :=
  ⟨congrArg Terms.id h,congrArg Terms.kind h,congrArg Terms.threadId h⟩

/-- A stored intent is decided. -/
theorem Onward.decide (hx : s.intent i.id=some x) (hxt : x.terms=i.terms) (hj : j.terms=i.terms)
    (hs : j.status ≠ .pendingApproval) : Onward s (s.saveIntent j) := by
  refine ⟨fun id y hy => ?_,fun _ h => h⟩
  rw [intent_saveIntent,(terms_parts hj).1]
  split
  · next hid =>
    rw [Option.mem_def,← hid,hx] at hy
    cases hy
    exact ⟨j,rfl,hj.trans hxt.symm,fun _ => hs⟩
  · exact ⟨y,hy,rfl,fun h => h⟩

/-- Nothing was added: the intents are still of stored threads, and single. -/
theorem Filed.kept (h : Filed s) (hold : ∀ id, ∀ y ∈ s'.intent id, ∃ x ∈ s.intent id, x.terms=y.terms)
    (ht : ∀ id, (s.thread id).isSome → (s'.thread id).isSome) : Filed s' := by
  refine ⟨fun id y hy hk tid htid => ?_,fun id jd y hy z hz hky hkz tid hty htz => ?_⟩
  · obtain ⟨x,hx,hxt⟩ := hold id y hy
    obtain ⟨-,hk₁,ht₁⟩ := terms_parts hxt
    exact ht tid (h.stored id x hx (hk₁.trans hk) tid (by rw [ht₁]; exact htid))
  · obtain ⟨x,hx,hxt⟩ := hold id y hy
    obtain ⟨u,hu,hut⟩ := hold jd z hz
    obtain ⟨-,hk₁,ht₁⟩ := terms_parts hxt
    obtain ⟨-,hk₂,ht₂⟩ := terms_parts hut
    exact h.single id jd x hx u hu (hk₁.trans hky) (hk₂.trans hkz) tid (by rw [ht₁]; exact hty)
      (by rw [ht₂]; exact htz)

/-- One was added, and if it opens a thread, then a stored one that was not stored before. -/
theorem Filed.added (h : Filed s) (hread : ∀ id, s'.intent id=if i.id=id then some i else s.intent id)
    (ht : ∀ id, (s.thread id).isSome → (s'.thread id).isSome)
    (hk : i.kind=.open → ∃ tid, i.threadId=some tid ∧ s.thread tid=none ∧ (s'.thread tid).isSome) :
    Filed s' := by
  have hold : ∀ id, ∀ y ∈ s'.intent id, id=i.id ∧ y=i ∨ y ∈ s.intent id := fun id y hy => by
    rw [Option.mem_def,hread] at hy
    split at hy
    · next hid => exact .inl ⟨hid.symm,(Option.some.inj hy).symm⟩
    · exact .inr hy
  -- no stored intent is drawn for the thread of the new one
  have hnone : ∀ jd, ∀ y ∈ s.intent jd, y.kind=.open → i.kind=.open → ∀ tid ∈ y.threadId,
      tid ∉ i.threadId := by
    intro jd y hy hky hki tid hty hti
    obtain ⟨tid',htid',hn,-⟩ := hk hki
    have hsome := h.stored jd y hy hky tid hty
    rw [Option.mem_def,htid'] at hti
    cases hti
    rw [hn] at hsome
    cases hsome
  refine ⟨fun id y hy hky tid htid => ?_,fun id jd y hy z hz hky hkz tid hty htz => ?_⟩
  · rcases hold id y hy with ⟨-,rfl⟩|hy
    · obtain ⟨tid',htid',-,hsome⟩ := hk hky
      rw [Option.mem_def,htid'] at htid
      cases htid
      exact hsome
    · exact ht tid (h.stored id y hy hky tid htid)
  · rcases hold id y hy with ⟨rfl,rfl⟩|hy <;> rcases hold jd z hz with ⟨rfl,rfl⟩|hz
    · rfl
    · exact absurd hty (hnone jd z hz hkz hky tid htz)
    · exact absurd htz (hnone id y hy hky hkz tid hty)
    · exact h.single id jd y hy z hz hky hkz tid hty htz

theorem Filed.decide (h : Filed s) (hx : s.intent i.id=some x) (hxt : x.terms=i.terms)
    (hj : j.terms=i.terms) : Filed (s.saveIntent j) := by
  refine h.kept (fun id y hy => ?_) fun _ h => h
  rw [intent_saveIntent,(terms_parts hj).1] at hy
  split at hy
  · next hid =>
    cases hy
    exact ⟨x,hid ▸ hx,hxt.trans hj.symm⟩
  · exact ⟨y,hy,rfl⟩

namespace Custody.Draws

/-- The drawn intent is stored, and the others are as they were. -/
theorem intents (h : Draws s t i s') (id : String) :
    s'.intent id=if i.id=id then some i else s.intent id := by
  rw [Runtime.intent,h.intent]
  exact intent_saveIntent s i id

/-- The new thread is stored, and the others are as they were. -/
theorem threads (h : Draws s t i s') : ∃ ids, ∀ id,
    s'.thread id=if t.id=id then some { t with intentIds := ids } else s.thread id := by
  obtain ⟨ids,hids⟩ := h.thread
  refine ⟨ids,fun id => ?_⟩
  rw [thread_congr hids,Runtime.thread_saveThread,Runtime.thread_saveThread]
  dsimp only
  split <;> rfl

theorem stored (h : Draws s t i s') (id : String) (hid : (s.thread id).isSome) : (s'.thread id).isSome := by
  obtain ⟨ids,hids⟩ := h.threads
  rw [hids]
  split
  · rfl
  · exact hid

theorem filed (h : Draws s t i s') (hf : Filed s) (hn : s.thread t.id=none) : Filed s' := by
  refine hf.added h.intents h.stored fun _ => ⟨t.id,h.drawn.thread,hn,?_⟩
  obtain ⟨ids,hids⟩ := h.threads
  rw [hids,if_pos rfl]
  rfl

theorem onward (h : Draws s t i s') : Onward s s' := by
  refine ⟨fun id y hy => ⟨y,?_,rfl,fun h => h⟩,h.stored⟩
  rw [Option.mem_def,h.intents,if_neg]
  · exact hy
  · rintro rfl
    rw [Option.mem_def,h.unborn] at hy
    cases hy

/-- The second of the two writes goes on with the state of the first. -/
theorem recorded (h : Draws s t i s') : Onward (s.saveThread t) s' := by
  refine ⟨h.onward.intent,fun id hid => ?_⟩
  obtain ⟨ids,hids⟩ := h.threads
  rw [Runtime.thread_saveThread] at hid
  rw [hids]
  split
  · rfl
  · next hne => rwa [if_neg hne] at hid

end Custody.Draws

end

section
variable {ω : Type} {K : Custody ω} {s s' : Runtime} {w : ω} {p : Power} {l : Writer}

namespace Custody

theorem ThreadMove.stored (h : K.ThreadMove l s w s') (id : String) (hid : (s.thread id).isSome) :
    (s'.thread id).isSome := by
  have hsave : ∀ {u : StrategyThread}, s'.threads=(s.saveThread u).threads → (s'.thread id).isSome :=
    fun {u} h => by
      rw [thread_congr h]
      exact isSome_saveThread hid u
  cases h with
  | same h => rw [thread_congr h]; exact hid
  | jot _ _ _ h => exact hsave h
  | edit _ _ _ _ h => exact hsave h
  | create _ _ h => exact hsave h
  | reject _ _ _ _ _ _ _ _ _ h => exact hsave h

/-- The intents in hand are stored, on their terms. -/
structure Owns (K : Custody ω) : Prop where
  owned : ∀ {i s w}, K.owned i s w → ∃ x, s.intent i.id=some x ∧ x.terms=i.terms

/-- What a custody knows of the intents, stored and in hand. -/
structure Files (K : Custody ω) : Prop extends Owns K where
  inv : ∀ {s w}, K.inv s w → Filed s

omit K in
theorem owned_onward {i : DemoIntent} (h : ∃ x, s.intent i.id=some x ∧ x.terms=i.terms) (hs : Onward s s') :
    ∃ x, s'.intent i.id=some x ∧ x.terms=i.terms := by
  obtain ⟨x,hx,ht⟩ := h
  obtain ⟨x',hx',ht',-⟩ := hs.intent i.id x hx
  exact ⟨x',hx',ht'.trans ht⟩

omit K in
theorem owned_congr {i j : DemoIntent} (h : ∃ x, s.intent i.id=some x ∧ x.terms=i.terms) (ht : j.terms=i.terms) :
    ∃ x, s.intent j.id=some x ∧ x.terms=j.terms := by
  rw [(terms_parts ht).1,ht]
  exact h

theorem Deed.onward (hK : K.Owns) (hd : K.Deed p l s w s') : Onward s s' := by
  refine ⟨fun id y hy => ?_,fun id => hd.threads.stored id⟩
  cases hd.intents with
  | same h => exact ⟨y,by rw [Option.mem_def,Runtime.intent,h]; exact hy,rfl,fun h => h⟩
  | add i hid _ _ _ h =>
    refine ⟨y,?_,rfl,fun h => h⟩
    rw [Option.mem_def,Runtime.intent,h]
    show (s.saveIntent i).intent id=some y
    rw [intent_saveIntent,if_neg]
    · exact hy
    · rintro rfl
      rw [Option.mem_def,hid] at hy
      cases hy
  | patch i j ho ht _ hs h =>
    obtain ⟨x,hx,hxt⟩ := hK.owned ho
    obtain ⟨y',hy',h'⟩ := (Onward.decide hx hxt ht hs).intent id y hy
    refine ⟨y',?_,h'⟩
    rw [Option.mem_def,Runtime.intent,h]
    exact hy'
  | resolve f ht _ hs h =>
    refine ⟨f y,by rw [Option.mem_def,h,hy,Option.map_some],ht y,fun hn => ?_⟩
    rcases hs y with he|he
    · rw [he]
      exact hn
    · exact he.1

/-- Where the stored intents come from: they were stored with their terms, or one was added that opens
no thread. -/
theorem IntentMove.origin (hK : K.Owns) (h : K.IntentMove p s w s') :
    (∀ id, ∀ y ∈ s'.intent id, ∃ x ∈ s.intent id, x.terms=y.terms) ∨
      ∃ i : DemoIntent, i.kind ≠ .open ∧ s'.intents=(s.saveIntent i).intents := by
  cases h with
  | same h => exact .inl fun id y hy => ⟨y,by rwa [Option.mem_def,Runtime.intent,← h],rfl⟩
  | add i _ _ _ hk h => exact .inr ⟨i,hk,h⟩
  | patch i j ho ht _ _ h =>
    obtain ⟨x,hx,hxt⟩ := hK.owned ho
    refine .inl fun id y hy => ?_
    rw [Option.mem_def,Runtime.intent,h] at hy
    change (s.saveIntent j).intent id=some y at hy
    rw [intent_saveIntent,(terms_parts ht).1] at hy
    split at hy
    · next hid =>
      cases hy
      exact ⟨x,hid ▸ hx,hxt.trans ht.symm⟩
    · exact ⟨y,hy,rfl⟩
  | resolve f ht _ _ h =>
    refine .inl fun id y hy => ?_
    rw [Option.mem_def,h] at hy
    obtain ⟨x,hx,rfl⟩ := Option.map_eq_some_iff.mp hy
    exact ⟨x,hx,(ht x).symm⟩

theorem Deed.filed (hK : K.Files) (hi : K.inv s w) (hd : K.Deed p l s w s') : Filed s' := by
  have hf := hK.inv hi
  have hthread := hd.threads.stored
  rcases hd.intents.origin hK.toOwns with hold|⟨i,hk,h⟩
  · exact hf.kept hold hthread
  · refine hf.added (i := i) (fun id => ?_) hthread fun hk' => absurd hk' hk
    rw [Runtime.intent,h]
    exact intent_saveIntent s i id

variable [Host]

/-- Every write of a method goes on with the stored intents. -/
theorem Stroke.onward (hK : K.Owns) (h : K.Stroke p l s w s') : Onward s s' := by
  cases h with
  | deed _ hd => exact hd.onward hK
  | proposes t _ _ _ h => exact h ▸ .saveThread s t
  | draws s₀ t i _ _ _ hs hd => exact hs ▸ hd.recorded
  | takes t u _ _ _ _ _ _ h => exact h ▸ .saveThread s u
  | approves s₀ t u i j _ _ _ ho _ _ hs ht hj _ h =>
    subst h hs
    obtain ⟨x,hx,hxt⟩ := hK.owned ho
    exact Onward.decide (i := i) (x := x) hx hxt ht (by rw [hj]; nofun)

end Custody
end
end TradeGate
