import TradeGate.Custody.Deeds

/-! The laws of a custody, and what they give for a set of copies in hand. -/
namespace TradeGate
open Coop

/-- The thread with the id is left as it is, but for the intents recorded on it. -/
def Quiet (id : String) (s s' : Runtime) : Prop :=
  s'.thread id=s.thread id ∨
    ∃ t ∈ s.thread id, ∃ ids, s'.thread id=some { t with intentIds := ids }

namespace Custody

variable {ω : Type} (K : Custody ω)

/-- Under its laws a custody is kept by everything a method of the power does itself, and lets the
method go on after an await. -/
structure Laws [Host] (p : Power) : Prop where
  known_of_held : ∀ {t s w}, K.held t s w → K.known t s w
  kin_of_held : ∀ {t s w}, K.inv s w → K.held t s w → K.kin t s w
  kin_plan : ∀ {t u : StrategyThread} {s w}, u.plan=t.plan → K.kin t s w → K.kin u s w
  back_inv : ∀ {s w q r s' w'}, K.inv s w → K.back s w q r s' w' → K.inv s' w'
  back_held : ∀ {t s w q r s' w'}, K.inv s w → K.back s w q r s' w' → K.held t s w → K.held t s' w'
  back_known : ∀ {t s w q r s' w'}, K.inv s w → K.back s w q r s' w' → K.known t s w → K.known t s' w'
  back_kin : ∀ {t s w q r s' w'}, K.inv s w → K.back s w q r s' w' → K.kin t s w → K.kin t s' w'
  back_leg : ∀ {id c s w q r s' w'}, K.inv s w → K.back s w q r s' w' → c ∉ q.places →
    K.leg id c s w → K.leg id c s' w'
  back_again : ∀ {id c s w q r s' w'}, K.inv s w → K.back s w q r s' w' →
    K.again id c s w ∧ c ∉ q.places ∨ K.leg id c s w ∧ q.placesStop c → K.again id c s' w'
  back_spent : ∀ {id s w q r s' w'}, K.inv s w → K.back s w q r s' w' → K.spent id s w → K.spent id s' w'
  back_ticket : ∀ {t c s w q r s' w'}, K.inv s w → K.back s w q r s' w' → q.places=[] →
    K.ticket t c s w → K.ticket t c s' w'
  back_owned : ∀ {i s w q r s' w'}, K.inv s w → K.back s w q r s' w' → K.owned i s w → K.owned i s' w'
  back_now : ∀ {s w q r s' w'}, K.watch → K.inv s w → K.back s w q r s' w' → s.now ≤ s'.now
  listed : ∀ {t s w}, K.inv s w → t ∈ s.openThreads → K.aims t.plan → K.held t s w
  reread : ∀ {t s w}, K.inv s w → K.known t s w → K.held ((s.thread t.id).getD t) s w
  takeIntent : ∀ {i s w}, K.inv s w → s.intent i.id=some i → K.owned i s w
  takePair : ∀ {i id s w}, K.inv s w → s.intent i.id=some i → i.threadId=some id → i.kind=.open →
    i.status=.pendingApproval → K.pairs i id s w
  deed_inv : ∀ {l s w s'}, K.inv s w → K.Deed p l s w s' → K.inv s' w
  deed_quiet : ∀ {l t s w s'}, K.inv s w → K.Deed p l s w s' → Quiet t.id s s' →
    (K.held t s w → K.held t s' w) ∧ (K.known t s w → K.known t s' w)
  watch_known : ∀ {t u s w}, K.watch → K.inv s w → K.known t s w → t.settled s.now →
    s.thread t.id=some u → u.settled s.now
  watch_spent : ∀ {id s w}, K.watch → K.inv s w → K.spent id s w → ∃ u ∈ s.thread id, ¬u.unsent
  deed_edit : ∀ {l t u s w}, K.inv s w → K.held t s w → K.Edit l s w t u → (u.ended → t.ended) →
    K.held u (s.saveThread u) w
  deed_known : ∀ {l t u v s w}, K.inv s w → K.held t s w → K.Edit l s w t u → (u.ended → t.ended) →
    v.id=t.id → K.known v s w → K.known v (s.saveThread u) w
  deed_mints : ∀ {l t u s w leg n}, K.inv s w → K.held t s w → K.Edit l s w t u → t.legSeq<n →
    n ≤ u.legSeq → K.leg t.id (legCid t.id leg n) (s.saveThread u) w
  deed_create : ∀ {t s w}, K.inv s w → Adopted s t → K.aims t.plan → K.held t (s.saveThread t) w
  deed_kin : ∀ {l t s w s'}, K.inv s w → K.Deed p l s w s' → K.kin t s w → K.kin t s' w
  deed_leg : ∀ {l id c s w s'}, K.inv s w → K.Deed p l s w s' → K.leg id c s w → K.leg id c s' w
  deed_again : ∀ {l id c s w s'}, K.inv s w → K.Deed p l s w s' → K.again id c s w → K.again id c s' w
  deed_spent : ∀ {l id s w s'}, K.inv s w → K.Deed p l s w s' → K.spent id s w → K.spent id s' w
  deed_ticket : ∀ {l t c s w s'}, K.inv s w → K.Deed p l s w s' → K.ticket t c s w → K.ticket t c s' w
  deed_owned : ∀ {l i s w s'}, K.inv s w → K.Deed p l s w s' → K.owned i s w → K.owned i s' w
  patch_owned : ∀ {i j s w}, K.inv s w → K.owned i s w → j.terms=i.terms → K.owned j s w
  propose : ∀ {t i s w s'}, p=.opening → K.inv s w → Proposed s t → K.aims t.plan → Draws s t i s' →
    K.inv s' w ∧ K.held t s' w ∧ K.owned i s' w ∧ K.pairs i t.id s' w
  mint : ∀ {t u i j s w}, p=.opening → K.inv s w → K.held t s w → K.owned i s w → K.pairs i t.id s w →
    Minting s t u → j.terms=i.terms → j.status=.approved →
    j.clientOrderId=some (legCid t.id .e (t.legSeq+1)) →
    K.inv ((s.saveThread u).saveIntent j) w ∧
      (∀ v : StrategyThread, v.plan=t.plan → v.progress=t.progress →
        K.known v ((s.saveThread u).saveIntent j) w) ∧ K.kin t ((s.saveThread u).saveIntent j) w ∧
      K.ticket t (legCid t.id .e (t.legSeq+1)) ((s.saveThread u).saveIntent j) w ∧
      K.spent t.id ((s.saveThread u).saveIntent j) w ∧ K.owned j ((s.saveThread u).saveIntent j) w

/-- The invariant, and a set of copies that may be stored. -/
structure Has (G : StrategyThread → Prop) (s : Runtime) (w : ω) : Prop where
  inv : K.inv s w
  held : ∀ v, G v → K.held v s w

end Custody

/-- No copy of the set is of the thread. -/
def OffThread (id : String) (G : StrategyThread → Prop) : Prop := ∀ v, G v → v.id ≠ id

end TradeGate

/-! The store functions as deeds. -/
namespace TradeGate
open Coop

section
variable {s : Runtime}

theorem intent_saveIntent (s : Runtime) (i : DemoIntent) (id : String) :
    (s.saveIntent i).intent id=if i.id=id then some i else s.intent id :=
  s.intents.lookup_upsert i id

theorem intent_of_mem {i : DemoIntent} (h : i ∈ s.intents.rows) : s.intent i.id=some i :=
  Keyed.Table.lookup_of_mem h

theorem id_of_intent {id : String} {i : DemoIntent} (h : s.intent id=some i) : i.id=id :=
  Keyed.Table.key_of_lookup h

theorem thread_congr {s s' : Runtime} (h : s'.threads=s.threads) (id : String) :
    s'.thread id=s.thread id := by
  unfold Runtime.thread
  rw [h]

/-- What is read in place of a copy is a record of the same thread. -/
theorem id_getD_thread (s : Runtime) (t : StrategyThread) : ((s.thread t.id).getD t).id=t.id := by
  cases hs : s.thread t.id with
  | none => rfl
  | some u => exact Runtime.id_of_thread hs

theorem mem_intentsForThread {i : DemoIntent} {id : String} (h : i ∈ s.intentsForThread id) :
    i ∈ s.intents.rows ∧ i.threadId=some id := by
  obtain ⟨hm,ht⟩ := List.mem_filter.mp h
  have hm' := List.mem_of_mem_take hm
  rw [List.mem_insertionSort] at hm'
  exact ⟨hm',of_decide_eq_true ht⟩

/-- Storing each row of a snapshot changed, one after the other, changes these rows. -/
theorem intent_foldl_saveIntent {g : DemoIntent → DemoIntent} (hg : ∀ i, (g i).id=i.id)
    {f : Runtime → DemoIntent → Runtime}
    (hf : ∀ s i, s.intent i.id=some i → ∀ id, (f s i).intent id=(s.saveIntent (g i)).intent id)
    {is : List DemoIntent} (hn : (is.map DemoIntent.id).Nodup) (s : Runtime)
    (hs : ∀ i ∈ is, s.intent i.id=some i) (id : String) :
    (is.foldl f s).intent id=(s.intent id).map fun i => if i ∈ is then g i else i := by
  induction is generalizing s with
  | nil => simp
  | cons a as ih =>
    obtain ⟨ha,hn⟩ := List.nodup_cons.mp hn
    have hstored := hs a List.mem_cons_self
    have hfa : ∀ id, (f s a).intent id=if a.id=id then some (g a) else s.intent id := fun id => by
      rw [hf s a hstored,intent_saveIntent,hg]
    have hne : ∀ i ∈ as, a.id ≠ i.id := fun i hi he => ha (he ▸ List.mem_map_of_mem hi)
    rw [List.foldl_cons,ih hn (f s a) fun i hi => by
      rw [hfa,if_neg (hne i hi),hs i (List.mem_cons_of_mem _ hi)]]
    rw [hfa]
    split
    · next hid =>
      have hga : g a ∉ as := fun hm => hne _ hm (hg a).symm
      rw [← hid,hstored]
      simp [hga]
    · next hid =>
      cases hi : s.intent id with
      | none => rfl
      | some i =>
        have hia : i ≠ a := by
          rintro rfl
          exact hid (id_of_intent hi)
        simp [hia]

theorem intentsForThread_nodup (s : Runtime) (id : String) :
    ((s.intentsForThread id).map DemoIntent.id).Nodup := by
  have hrows : (s.intents.rows.map DemoIntent.id).Nodup := s.intents.nodup
  refine ((List.filter_sublist.trans (List.take_sublist _ _)).map _).nodup ?_
  exact (((List.perm_insertionSort _ _).map _).nodup_iff).mpr hrows

theorem intent_foldl_intentsForThread {g : DemoIntent → DemoIntent} (hg : ∀ i, (g i).id=i.id)
    {f : Runtime → DemoIntent → Runtime}
    (hf : ∀ s i, s.intent i.id=some i → ∀ id, (f s i).intent id=(s.saveIntent (g i)).intent id)
    (s : Runtime) (tid id : String) :
    ((s.intentsForThread tid).foldl f s).intent id=
      (s.intent id).map fun i => if i ∈ s.intentsForThread tid then g i else i :=
  intent_foldl_saveIntent hg hf (intentsForThread_nodup s tid) s
    (fun _ hi => intent_of_mem (mem_intentsForThread hi).1) id

/-- What the end of a thread makes of one of its intents. -/
def resolvedOpen (t : StrategyThread) (fallback : IntentStatus) (i : DemoIntent) : DemoIntent :=
  if i.status=.pendingApproval then { i with status := .rejected, error := some "线程已结束" }
  else if i.status=.unknown ∨ i.status=.approved then { i with status := fallback }
  else if i.status=.submitted ∧ i.kind=.open then
    { i with status := if t.filledAvgPrice.isSome then .filled else fallback }
  else i

theorem resolvedOpen_terms (t : StrategyThread) (fallback : IntentStatus) (i : DemoIntent) :
    (resolvedOpen t fallback i).terms=i.terms := by
  unfold resolvedOpen
  split_ifs <;> rfl

theorem certain_filled : IntentStatus.filled.certain := ⟨nofun,nofun,nofun⟩

theorem certain_failed : IntentStatus.failed.certain := ⟨nofun,nofun,nofun⟩

theorem resolvedOpen_status (t : StrategyThread) {fallback : IntentStatus} (hf : fallback.certain)
    (i : DemoIntent) : (resolvedOpen t fallback i).status.certain := by
  obtain ⟨h₁,h₂,h₃⟩ := hf
  unfold resolvedOpen
  split_ifs with a b c d
  · exact ⟨nofun,nofun,nofun⟩
  · exact ⟨h₁,h₂,h₃⟩
  · exact ⟨by simp,by simp,by simp⟩
  · exact ⟨by simpa [d] using h₁,by simpa [d] using h₂,by simpa [d] using h₃⟩
  · rw [not_or] at b
    exact ⟨a,b.2,b.1⟩

theorem intent_resolveOpenIntents (s : Runtime) (t : StrategyThread) (fallback : IntentStatus)
    (id : String) : (s.resolveOpenIntents t fallback).intent id=(s.intent id).map fun i =>
      if i ∈ s.intentsForThread t.id then resolvedOpen t fallback i else i := by
  refine intent_foldl_intentsForThread (fun i => congrArg Terms.id (resolvedOpen_terms t fallback i))
    (fun s i hi id => ?_) s t.id id
  unfold resolvedOpen
  split_ifs
  · rfl
  · rfl
  · rfl
  · rfl
  · rw [intent_saveIntent]
    split
    · next h => rw [← h,hi]
    · rfl

/-- What an order that was found again makes of an intent of unknown fate. -/
def resolvedUnknown (order : Option OrderStatusView) (i : DemoIntent) : DemoIntent :=
  if i.status=.unknown then
    match order with
    | none => i
    | some o => { i with
      status := if o.status=.filled then .filled else if o.status.dead then .failed else .submitted
      error := none }
  else i

theorem resolvedUnknown_terms (order : Option OrderStatusView) (i : DemoIntent) :
    (resolvedUnknown order i).terms=i.terms := by
  unfold resolvedUnknown
  split_ifs
  · cases order <;> rfl
  · rfl

theorem resolvedUnknown_status (order : Option OrderStatusView) (i : DemoIntent) :
    (resolvedUnknown order i).status=i.status ∨ (resolvedUnknown order i).status.certain := by
  unfold resolvedUnknown
  split_ifs
  · cases order with
    | none => exact .inl rfl
    | some o =>
      refine .inr ?_
      dsimp only
      split_ifs <;> exact ⟨by decide,by decide,by decide⟩
  · exact .inl rfl

theorem intent_resolveUnknownIntents (s : Runtime) (t : StrategyThread)
    (order : Option OrderStatusView) (id : String) :
    (s.resolveUnknownIntents t order).intent id=(s.intent id).map fun i =>
      if i ∈ s.intentsForThread t.id then resolvedUnknown order i else i := by
  have hsame : ∀ (s : Runtime) (i : DemoIntent), s.intent i.id=some i → ∀ id,
      s.intent id=(s.saveIntent i).intent id := fun s i hi id => by
    rw [intent_saveIntent]
    split
    · next h => rw [← h,hi]
    · rfl
  refine intent_foldl_intentsForThread
    (fun i => congrArg Terms.id (resolvedUnknown_terms order i)) (fun s i hi id => ?_) s t.id id
  unfold resolvedUnknown
  split_ifs
  · cases order with
    | none => exact hsame s i hi id
    | some o => rfl
  · exact hsame s i hi id

/-- A loop that only stores intents changes nothing else. -/
theorem foldl_intents_only {α : Type} {f : Runtime → α → Runtime}
    (hf : ∀ s a, ∃ T, f s a={ s with intents := T }) (as : List α) (s : Runtime) :
    ∃ T, as.foldl f s={ s with intents := T } := by
  induction as generalizing s with
  | nil => exact ⟨s.intents,rfl⟩
  | cons a as ih =>
    obtain ⟨T,hT⟩ := hf s a
    obtain ⟨U,hU⟩ := ih (f s a)
    exact ⟨U,by rw [List.foldl_cons,hU,hT]⟩

theorem resolveOpenIntents_only (s : Runtime) (t : StrategyThread) (fallback : IntentStatus) :
    ∃ T, s.resolveOpenIntents t fallback={ s with intents := T } := by
  refine foldl_intents_only (fun s i => ?_) _ s
  split_ifs <;> exact ⟨_,rfl⟩

theorem resolveUnknownIntents_only (s : Runtime) (t : StrategyThread)
    (order : Option OrderStatusView) :
    ∃ T, s.resolveUnknownIntents t order={ s with intents := T } := by
  refine foldl_intents_only (fun s i => ?_) _ s
  split_ifs
  · cases order <;> exact ⟨_,rfl⟩
  · exact ⟨_,rfl⟩

theorem Runtime.threads_resolveOpenIntents (s : Runtime) (t : StrategyThread) (st : IntentStatus) :
    (s.resolveOpenIntents t st).threads=s.threads := by
  obtain ⟨T,hT⟩ := resolveOpenIntents_only s t st
  rw [hT]

theorem Runtime.threads_resolveUnknownIntents (s : Runtime) (t : StrategyThread)
    (o : Option OrderStatusView) : (s.resolveUnknownIntents t o).threads=s.threads := by
  obtain ⟨T,hT⟩ := resolveUnknownIntents_only s t o
  rw [hT]

end

variable {ω : Type} {K : Custody ω} {s s' : Runtime} {w : ω} {p : Power} {l : Writer}
  {t u : StrategyThread} {G : StrategyThread → Prop}

namespace Custody

/-- A write that leaves threads and intents alone. -/
theorem Deed.aside (ht : s'.threads=s.threads) (hi : s'.intents=s.intents)
    (hn : s'.now=s.now) (hb : s'.backend=s.backend ∨ p=.switching)
    (hh : s'.halted=s.halted ∨ p=.ruling) (hbk : BookMove s s') :
    K.Deed p l s w s' :=
  ⟨.same ht,.same hi,hn,hb,hh,hbk⟩

theorem Deed.edit (ht : K.held t s w) (he : K.Edit l s w t u) : K.Deed p l s w (s.saveThread u) :=
  ⟨.edit t u ht he rfl,.same rfl,rfl,.inl rfl,.inl rfl,.same rfl rfl⟩

/-- A write of intents that only settles them. -/
theorem Deed.resolves {f : DemoIntent → DemoIntent} {T : Keyed.Table DemoIntent.id}
    (hs : s'={ s with intents := T }) (ht : ∀ i, (f i).terms=i.terms)
    (hc : ∀ i, (f i).clientOrderId=i.clientOrderId)
    (hst : ∀ i, (f i).status=i.status ∨ (f i).status.certain)
    (h : ∀ id, s'.intent id=(s.intent id).map f) : K.Deed p l s w s' := by
  subst hs
  exact ⟨.same rfl,.resolve f ht hc hst h,rfl,.inl rfl,.inl rfl,.same rfl rfl⟩

theorem Deed.resolveOpen {fallback : IntentStatus} (hf : fallback.certain) :
    K.Deed p l s w (s.resolveOpenIntents t fallback) := by
  obtain ⟨T,hT⟩ := resolveOpenIntents_only s t fallback
  refine .resolves hT (fun i => ?_) (fun i => ?_) (fun i => ?_) (intent_resolveOpenIntents s t fallback)
  · split
    · exact resolvedOpen_terms t fallback i
    · rfl
  · unfold resolvedOpen
    split_ifs <;> rfl
  · split
    · exact .inr (resolvedOpen_status t hf i)
    · exact .inl rfl

theorem Deed.resolveUnknown {order : Option OrderStatusView} :
    K.Deed p l s w (s.resolveUnknownIntents t order) := by
  obtain ⟨T,hT⟩ := resolveUnknownIntents_only s t order
  refine .resolves hT (fun i => ?_) (fun i => ?_) (fun i => ?_) (intent_resolveUnknownIntents s t order)
  · split
    · exact resolvedUnknown_terms order i
    · rfl
  · unfold resolvedUnknown
    split_ifs
    · cases order <;> rfl
    · rfl
    · rfl
  · split
    · exact resolvedUnknown_status order i
    · exact .inl rfl

end Custody

theorem Quiet.of_threads (h : s'.threads=s.threads) (id : String) : Quiet id s s' :=
  .inl (thread_congr h id)

theorem Quiet.of_ne {id : String} (h : u.id ≠ id) : Quiet id s (s.saveThread u) :=
  .inl (by rw [Runtime.thread_saveThread,if_neg h])

/-- Recording an intent leaves every thread as it is otherwise. -/
theorem Quiet.of_jot {ids : List String} (ht : s.thread t.id=some t)
    (h : s'.threads=(s.saveThread { t with intentIds := ids }).threads) (id : String) : Quiet id s s' := by
  have hs : s'.thread id=if t.id=id then some { t with intentIds := ids } else s.thread id := by
    rw [thread_congr h]
    exact Runtime.thread_saveThread _ _ _
  by_cases hid : t.id=id
  · subst hid
    exact .inr ⟨t,ht,ids,by rw [hs,if_pos rfl]⟩
  · exact .inl (by rw [hs,if_neg hid])

namespace Custody

/-- A copy in hand that may be stored, beside copies of other threads. -/
structure Hand (K : Custody ω) (t : StrategyThread) (G : StrategyThread → Prop) (s : Runtime) (w : ω) :
    Prop extends K.Has G s w where
  off : OffThread t.id G
  copy : K.held t s w

/-- A thread that may be read again, beside copies of other threads. -/
structure Grip (K : Custody ω) (t : StrategyThread) (G : StrategyThread → Prop) (s : Runtime) (w : ω) :
    Prop extends K.Has G s w where
  off : OffThread t.id G
  known : K.known t s w
  kin : K.kin t s w

/-- The copy is settled, where threads in flight are watched. -/
def Sure (K : Custody ω) (t : StrategyThread) (s : Runtime) : Prop := K.watch → t.settled s.now

/-- The copy tells that no entry is on its way, where threads in flight are watched. -/
structure Calm (K : Custody ω) (t : StrategyThread) (s : Runtime) : Prop where
  firm : K.Firm t s
  still : K.watch → ¬t.inFlight s.now

theorem Sure.firm (h : Sure K t s) : K.Firm t s := fun hw => .inl (h hw)

theorem Sure.calm (h : Sure K t s) : Calm K t s := ⟨h.firm,fun hw => (h hw).not_inFlight⟩

theorem Sure.of_status (h : t.status ≠ .pendingEntry) : Sure K t s :=
  fun _ => StrategyThread.settled_of_status h

/-- A thread as it is stored. -/
theorem Firm.stored (h : s.thread t.id=some t) : K.Firm t s := fun _ => .inr fun u hu => by
  rw [h] at hu
  cases hu
  rfl

/-- What is read in place of a copy is as it is stored. -/
theorem Firm.getD (t : StrategyThread) : K.Firm ((s.thread t.id).getD t) s := fun _ => .inr fun u hu => by
  rw [id_getD_thread] at hu
  rw [hu,Option.getD_some]

theorem Firm.quiet (h : K.Firm t s) (hq : Quiet t.id s s') (hn : s'.now=s.now) : K.Firm t s' := by
  intro hw
  rw [hn]
  refine (h hw).imp id fun hs u hu => ?_
  rcases hq with hq|⟨v,hv,ids,hq⟩
  · exact hs u (hq ▸ hu)
  · rw [hq] at hu
    cases hu
    exact hs v hv

theorem Calm.quiet (h : Calm K t s) (hq : Quiet t.id s s') (hn : s'.now=s.now) : Calm K t s' :=
  ⟨h.firm.quiet hq hn,by rw [hn]; exact h.still⟩

/-- A copy that was just stored. -/
theorem Firm.saved (t : StrategyThread) : K.Firm t (s.saveThread t) :=
  .stored (Runtime.thread_saveThread_self s t)

variable [Host]

namespace Laws

variable (hK : K.Laws p)
include hK

theorem grip (h : K.Hand t G s w) : K.Grip t G s w :=
  ⟨h.toHas,h.off,hK.known_of_held h.copy,hK.kin_of_held h.inv h.copy⟩

theorem kin (h : K.Hand t G s w) : K.kin t s w := hK.kin_of_held h.inv h.copy

/-- A write that leaves the threads alone. -/
theorem has_of_deed (h : K.Has G s w) (hd : K.Deed p l s w s') (hq : ∀ v, G v → Quiet v.id s s') :
    K.Has G s' w :=
  ⟨hK.deed_inv h.inv hd,fun v hv => (hK.deed_quiet h.inv hd (hq v hv)).1 (h.held v hv)⟩

theorem hand_of_deed (h : K.Hand t G s w) (hd : K.Deed p l s w s') (hq : ∀ id, Quiet id s s') :
    K.Hand t G s' w :=
  ⟨hK.has_of_deed h.toHas hd fun v _ => hq v.id,h.off,(hK.deed_quiet h.inv hd (hq t.id)).1 h.copy⟩

theorem grip_of_deed (h : K.Grip t G s w) (hd : K.Deed p l s w s') (hq : ∀ id, Quiet id s s') :
    K.Grip t G s' w :=
  ⟨hK.has_of_deed h.toHas hd fun v _ => hq v.id,h.off,(hK.deed_quiet h.inv hd (hq t.id)).2 h.known,
    hK.deed_kin h.inv hd h.kin⟩

variable {q : Call} {r : Answer q} {w' : ω}

theorem has_back (h : K.Has G s w) (hb : K.back s w q r s' w') : K.Has G s' w' :=
  ⟨hK.back_inv h.inv hb,fun v hv => hK.back_held h.inv hb (h.held v hv)⟩

theorem hand_back (h : K.Hand t G s w) (hb : K.back s w q r s' w') : K.Hand t G s' w' :=
  ⟨hK.has_back h.toHas hb,h.off,hK.back_held h.inv hb h.copy⟩

theorem grip_back (h : K.Grip t G s w) (hb : K.back s w q r s' w') : K.Grip t G s' w' :=
  ⟨hK.has_back h.toHas hb,h.off,hK.back_known h.inv hb h.known,hK.back_kin h.inv hb h.kin⟩

omit [Host] hK in
/-- Storing an edited copy leaves the other threads alone. -/
theorem quiet_edit (off : OffThread t.id G) (hu : u.plan=t.plan) (v : StrategyThread) (hv : G v) :
    Quiet v.id s (s.saveThread u) :=
  .of_ne fun h => off v hv (h.symm.trans (congrArg Plan.id hu))

theorem has_edit (h : K.Hand t G s w) (he : K.Edit l s w t u) : K.Has G (s.saveThread u) w :=
  hK.has_of_deed h.toHas (.edit (p := p) h.copy he) (quiet_edit h.off he.plan)

/-- A copy stored alive can be stored again. -/
theorem hand_edit (h : K.Hand t G s w) (he : K.Edit l s w t u) (hu : u.ended → t.ended) :
    K.Hand u G (s.saveThread u) w :=
  ⟨hK.has_edit h he,by rw [show u.id=t.id from congrArg Plan.id he.plan]; exact h.off,
    hK.deed_edit h.inv h.copy he hu⟩

theorem grip_edit (h : K.Hand t G s w) (he : K.Edit l s w t u) (hu : u.ended → t.ended) :
    K.Grip t G (s.saveThread u) w :=
  ⟨hK.has_edit h he,h.off,hK.deed_known h.inv h.copy he hu rfl (hK.known_of_held h.copy),
    hK.deed_kin h.inv (.edit (p := p) h.copy he) (hK.kin h)⟩

/-- The stored thread, read again. -/
theorem hand_stored (h : K.Grip t G s w) : K.Hand ((s.thread t.id).getD t) G s w :=
  ⟨h.toHas,by rw [id_getD_thread]; exact h.off,hK.reread h.inv h.known⟩

theorem sure_back (hi : K.inv s w) (h : Sure K t s) (hb : K.back s w q r s' w') : Sure K t s' :=
  fun hw => StrategyThread.settled_of_le (h hw) (hK.back_now hw hi hb)

/-- A thread known settled is settled wherever it is read again. -/
theorem sure_stored (h : K.Grip t G s w) (hs : Sure K t s) : Sure K ((s.thread t.id).getD t) s := by
  intro hw
  cases hu : s.thread t.id with
  | none => exact hs hw
  | some u => exact hK.watch_known hw h.inv h.known (hs hw) hu

end Laws

/-! The edits of the code. -/
section edits
omit [Host]

/-- An edit that leaves status, entry and quantity alone. -/
theorem Edit.note (hf : K.Firm t s) (plan : u.plan=t.plan) (legs : t.legSeq ≤ u.legSeq)
    (h : u.progress=t.progress)
    (flag : u.attention=some .entryRemainder → t.attention=some .entryRemainder) :
    K.Edit l s w t u := ⟨plan,legs,hf,.noted h flag⟩

theorem Edit.same (hf : K.Firm t s) : K.Edit l s w t t := .note hf rfl le_rfl rfl id

theorem Edit.flag (hf : K.Firm t s) {a : Option Attention} (ha : a ≠ some .entryRemainder) (now : ℕ) :
    K.Edit l s w t (t.flag a now) := .note hf rfl le_rfl rfl fun h => absurd h ha

end edits

theorem Edit.mint (hf : K.Firm t s) (leg : Leg) : K.Edit l s w t (nextLegCid t leg).2 :=
  .note hf rfl (Nat.le_succ _) rfl id

/-! Intents. -/

omit [Host] in
theorem Deed.patch {i j : DemoIntent} (hi : K.owned i s w) (ht : j.terms=i.terms)
    (hk : i.kind=.open → p=.opening ∨ j.status=.rejected) (hs : j.status ≠ .pendingApproval) :
    K.Deed p l s w (s.saveIntent j) :=
  ⟨.same rfl,.patch i j hi ht hk hs rfl,rfl,.inl rfl,.inl rfl,.same rfl rfl⟩

section newIntent

variable (s : Runtime) (thread : StrategyThread) (principal : Principal) (d : IntentDraft)

/-- The intent is recorded on its thread. -/
theorem newIntent_recorded (h : s.thread thread.id=some t) : ∃ ids,
    (s.newIntent thread principal d).2.threads=(s.saveThread { t with intentIds := ids }).threads := by
  unfold Runtime.newIntent
  dsimp only
  split
  · next u hu =>
    have hu' : s.thread thread.id=some u := hu
    rw [h] at hu'
    cases hu'
    exact ⟨_,rfl⟩
  · next hn =>
    have hn' : s.thread thread.id=none := hn
    rw [h] at hn'
    cases hn'

theorem newIntent_threads : (∃ t, s.thread t.id=some t ∧ ∃ ids,
    (s.newIntent thread principal d).2.threads=(s.saveThread { t with intentIds := ids }).threads) ∨
      (s.newIntent thread principal d).2.threads=s.threads := by
  cases ht : s.thread thread.id with
  | some t =>
    refine .inl ⟨t,?_,newIntent_recorded s thread principal d ht⟩
    rw [Runtime.id_of_thread ht]
    exact ht
  | none =>
    refine .inr ?_
    unfold Runtime.newIntent
    dsimp only
    split
    · next u hu =>
      have hu' : s.thread thread.id=some u := hu
      rw [ht] at hu'
      cases hu'
    · rfl

theorem newIntent_fields : (s.newIntent thread principal d).2.intents=
      (s.saveIntent (s.newIntent thread principal d).1).intents ∧
    (s.newIntent thread principal d).2.now=s.now ∧
    (s.newIntent thread principal d).2.backend=s.backend ∧
    (s.newIntent thread principal d).2.halted=s.halted := by
  unfold Runtime.newIntent
  dsimp only
  split <;> exact ⟨rfl,rfl,rfl,rfl⟩

theorem newIntent_books : (s.newIntent thread principal d).2.account=s.account ∧
    (s.newIntent thread principal d).2.dayStartEquity=s.dayStartEquity := by
  unfold Runtime.newIntent
  dsimp only
  split <;> exact ⟨rfl,rfl⟩

theorem newIntent_quiet (id : String) : Quiet id s (s.newIntent thread principal d).2 := by
  obtain ⟨t,ht,ids,h⟩|h := newIntent_threads s thread principal d
  · exact .of_jot ht h id
  · exact .of_threads h id

theorem Deed.newIntent (hk : d.kind ≠ .open) : K.Deed p l s w (s.newIntent thread principal d).2 := by
  obtain ⟨hi,hn,hb,hh⟩ := newIntent_fields s thread principal d
  obtain ⟨ha,hd⟩ := newIntent_books s thread principal d
  refine ⟨?_,.add _ s.intent_freshIntentId rfl rfl hk hi,hn,.inl hb,.inl hh,.same ha hd⟩
  obtain ⟨t,ht,ids,h⟩|h := newIntent_threads s thread principal d
  · exact .jot t ids ht h
  · exact .same h

theorem intent_newIntent : (s.newIntent thread principal d).2.intent
    (s.newIntent thread principal d).1.id=some (s.newIntent thread principal d).1 := by
  have h := (newIntent_fields s thread principal d).1
  unfold Runtime.intent
  rw [h]
  exact Keyed.Table.lookup_upsert_self _ _

end newIntent
end Custody
end TradeGate
