import TradeGate.Coop.Once
import TradeGate.Custody.Plans
import TradeGate.Entry.Drawn
import TradeGate.Entry.Freeze

/-! The right to send the entry of a thread.  It is live while the opening intent of the thread is
pending, and whoever decides the intent may send the entry once. -/
namespace TradeGate
open Coop Contract

variable [Host]

namespace Runtime

/-- The prefixes of the client order ids tell the stored threads apart. -/
def distinct (s : Runtime) : Prop := ∀ t ∈ s.threads.rows, ∀ u ∈ s.threads.rows,
  threadClientPrefix t.id=threadClientPrefix u.id → t.id=u.id

instance (s : Runtime) : Decidable s.distinct :=
  inferInstanceAs (Decidable (∀ t ∈ s.threads.rows, ∀ u ∈ s.threads.rows, _))

/-- The request is the entry order of the stored thread. -/
def entryFor (s : Runtime) (id : String) (q : Call) : Prop :=
  (s.thread id).isSome ∧ ∃ req ∈ q.entry?, ∃ n, req.clientOrderId=legCid id .e n

theorem distinct_of_thread {s : Runtime} (h : s.distinct) {a b : String} (ha : (s.thread a).isSome)
    (hb : (s.thread b).isSome) (hp : threadClientPrefix a=threadClientPrefix b) : a=b := by
  obtain ⟨t,ht⟩ := Option.isSome_iff_exists.mp ha
  obtain ⟨u,hu⟩ := Option.isSome_iff_exists.mp hb
  have hta := id_of_thread ht
  have hub := id_of_thread hu
  subst hta hub
  exact h t (Keyed.Table.mem_of_lookup ht) u (Keyed.Table.mem_of_lookup hu) hp

end Runtime

/-- The right to send the entry of a thread. -/
def entryRight (id : String) : Right Runtime Call where
  inv := Filed
  goes := Onward
  live s := ∀ iid, ∀ i ∈ s.intent iid, i.kind=.open → i.threadId=some id → i.status=.pendingApproval
  fits s q := ∀ req ∈ q.entry?, ∃ tid, s.entryFor tid q
  prize s q := s.distinct ∧ s.entryFor id q
  refl := Onward.refl
  trans h h' := h.trans h'
  dead {s s'} h hn hl := hn fun iid i hi hk ht => by
    obtain ⟨i',hi',hterms,hs⟩ := h.intent iid i hi
    obtain ⟨-,hk',ht'⟩ := terms_parts hterms
    by_contra hne
    exact hs hne (hl iid i' hi' (hk'.trans hk) (ht'.trans ht))

/-- The copies and intents of an operation that stands so to the right. -/
def onceOnly (id : String) : Custody Stand where
  inv s w := Filed s ∧ (w=.free ∨ ¬(entryRight id).live s)
  held _ _ _ := True
  known _ _ _ := True
  kin _ _ _ := True
  leg _ _ _ _ := True
  again _ _ _ _ := True
  spent _ _ _ := True
  ticket t c s w := (∃ n, c=legCid t.id .e n) ∧ (s.thread t.id).isSome ∧
    (t.id=id → (entryRight id).Holder s w)
  owned i s _ := ∃ x, s.intent i.id=some x ∧ x.terms=i.terms
  pairs i tid s _ := ∃ x, s.intent i.id=some x ∧ x.kind=.open ∧ x.threadId=some tid ∧
    x.status=.pendingApproval
  back s w q _ s' w' := Filed s' ∧ Onward s s' ∧ (entryRight id).After s w q s' w'
  watch := False

section
variable {id : String} {s s' : Runtime} {w w' : Stand} {p : Power} {l : Writer}

theorem holder_onward (h : (entryRight id).Holder s w) (hs : Onward s s') :
    (entryRight id).Holder s' w :=
  h.imp (fun h => h) fun ⟨h,hn⟩ => ⟨h,(entryRight id).dead hs hn⟩

/-- A decided opening intent of the thread ends the right. -/
theorem not_live_of_decided {iid : String} {i : DemoIntent} (hi : s.intent iid=some i)
    (hk : i.kind=.open) (ht : i.threadId=some id) (hs : i.status ≠ .pendingApproval) :
    ¬(entryRight id).live s := fun hl => hs (hl iid i hi hk ht)

/-- The right is live while one opening intent of the thread is pending, for it has no other. -/
theorem live_of_pending (hf : Filed s) {iid : String} {i : DemoIntent} (hi : s.intent iid=some i)
    (hk : i.kind=.open) (ht : i.threadId=some id) (hs : i.status=.pendingApproval) :
    (entryRight id).live s := by
  intro jd j hj hkj htj
  have := hf.single iid jd i hi j hj hk hkj id ht htj
  subst this
  rw [Option.mem_def,hi] at hj
  cases hj
  exact hs

theorem onceOnly_files : (onceOnly id).Files := ⟨⟨fun h => h⟩,fun h => h.1⟩

omit [Host] in
theorem entry?_of_places {q : Call} (h : q.places=[]) : q.entry?=none := by
  cases q <;> first | rfl | exact absurd h (by simp [Call.places])

theorem inv_onward (h : w=.free ∨ ¬(entryRight id).live s) (hs : Onward s s') :
    w=.free ∨ ¬(entryRight id).live s' := h.imp_right ((entryRight id).dead hs)

theorem ticket_onward {t : StrategyThread} {c : String} (h : (onceOnly id).ticket t c s w)
    (hs : Onward s s') : (onceOnly id).ticket t c s' w :=
  ⟨h.1,hs.thread _ h.2.1,fun ht => holder_onward (h.2.2 ht) hs⟩

theorem onceOnly_laws : (onceOnly id).Laws p where
  known_of_held _ := trivial
  kin_of_held _ _ := trivial
  kin_plan _ _ := trivial
  back_inv _ hb := ⟨hb.1,by
    cases hb.2.2 with
    | keeps _ _ hs => exact .inr hs
    | uses _ _ hs => exact .inr hs
    | waits _ _ => exact .inl rfl
    | loses _ hs => exact .inr hs⟩
  back_held _ _ _ := trivial
  back_known _ _ _ := trivial
  back_kin _ _ _ := trivial
  back_leg _ _ _ _ := trivial
  back_again _ _ _ := trivial
  back_spent _ _ _ := trivial
  back_ticket {t c s w q r s' w'} _ hb hq h := by
    refine ⟨h.1,hb.2.1.thread _ h.2.1,fun ht => ?_⟩
    have hh := h.2.2 ht
    cases hb.2.2 with
    | keeps _ _ hs => exact .inl rfl
    | uses _ hp _ =>
      obtain ⟨-,-,req,hreq,-⟩ := hp
      rw [Option.mem_def,entry?_of_places hq] at hreq
      cases hreq
    | waits hn _ => exact absurd hh hn
    | loses hn _ => exact absurd hh hn
  back_owned _ hb h := Custody.owned_onward h hb.2.1
  back_now hw := hw.elim
  listed _ _ _ := trivial
  reread _ _ := trivial
  takeIntent {i s w} _ hi := ⟨i,hi,rfl⟩
  takePair {i tid s w} _ hi ht hk hs := ⟨i,hi,hk,ht,hs⟩
  deed_inv h hd := ⟨hd.filed onceOnly_files h,inv_onward h.2 (hd.onward onceOnly_files.toOwns)⟩
  deed_quiet _ _ _ := ⟨fun h => h,fun h => h⟩
  watch_known hw := hw.elim
  watch_spent hw := hw.elim
  deed_edit _ _ _ _ := trivial
  deed_known _ _ _ _ _ _ := trivial
  deed_mints _ _ _ _ _ := trivial
  deed_create _ _ _ := trivial
  deed_kin _ _ _ := trivial
  deed_leg _ _ _ := trivial
  deed_again _ _ _ := trivial
  deed_spent _ _ _ := trivial
  deed_ticket h hd ht := ticket_onward ht (hd.onward onceOnly_files.toOwns)
  deed_owned h hd ho := Custody.owned_onward ho (hd.onward onceOnly_files.toOwns)
  patch_owned _ h ht := Custody.owned_congr h ht
  propose {t i s w s'} _ h hc _ hd := by
    have hi : s'.intent i.id=some i := by rw [hd.intents,if_pos rfl]
    exact ⟨⟨hd.filed h.1 hc.unborn,inv_onward h.2 hd.onward⟩,trivial,⟨i,hi,rfl⟩,
      ⟨i,hi,hd.kind,hd.drawn.thread,hd.status⟩⟩
  mint {t u i j s w} _ h _ ho hp hm ht hj _ := by
    obtain ⟨x,hx,hxt⟩ := ho
    obtain ⟨y,hy,hk,htid,hst⟩ := hp
    rw [hx] at hy
    cases hy
    have hne : j.status ≠ .pendingApproval := by rw [hj]; nofun
    have hs : Onward s ((s.saveThread u).saveIntent j) :=
      (Onward.saveThread s u).trans (Onward.decide (i := i) (x := x) hx hxt ht hne)
    have hsome : (((s.saveThread u).saveIntent j).thread t.id).isSome := by
      rw [Runtime.thread_saveIntent,← show u.id=t.id from congrArg Plan.id hm.plan,
        Runtime.thread_saveThread_self]
      rfl
    refine ⟨⟨(h.1.saveThread u).decide (i := i) (x := x) hx hxt ht,inv_onward h.2 hs⟩,
      fun _ _ _ => trivial,trivial,⟨⟨_,rfl⟩,hsome,fun hid => ?_⟩,trivial,?_⟩
    · -- the right was live, so it is the operation's own write that ends it
      obtain ⟨-,hkj,htj⟩ := terms_parts (ht.trans hxt.symm)
      have hself : ((s.saveThread u).saveIntent j).intent j.id=some j := by
        rw [intent_saveIntent,if_pos rfl]
      have hdead : ¬(entryRight id).live ((s.saveThread u).saveIntent j) :=
        not_live_of_decided hself (hkj.trans hk) (by rw [htj,htid,hid]) hne
      exact .inr ⟨h.2.resolve_right (not_not.mpr
        (live_of_pending h.1 hx hk (htid.trans (congrArg some hid)) hst)),hdead⟩
    · exact ⟨j,by rw [intent_saveIntent,if_pos rfl],rfl⟩

/-- What an operation owes under its custody, it owes to the right. -/
theorem entryRight_meets {q : RT Unit} (h : (onceOnly id).Keeps p q (fun _ s w => (onceOnly id).inv s w) s w) :
    (entryRight id).Meets q s w := by
  refine Meets.weaken (Meets.mono h fun _ _ _ h => h.1) (fun s w q h => ?_)
    (fun _ _ _ _ h => h.onward onceOnly_files.toOwns) (fun _ _ _ _ _ _ h => h) fun _ _ h => h.1
  obtain ⟨hinv,hp⟩ := h
  refine ⟨hinv.1,?_⟩
  have hnone : q.entry?=none → (entryRight id).fits s q ∧
      ((entryRight id).prize s q → (entryRight id).Holder s w) := fun hn => by
    refine ⟨fun req hreq => ?_,fun ⟨_,_,req,hreq,_⟩ => ?_⟩ <;>
      · rw [Option.mem_def,hn] at hreq
        cases hreq
  by_cases ho : p=.opening
  · subst ho
    cases hp with
    | asks h => exact hnone (by cases q <;> first | rfl | exact h.elim)
    | serves t ht h hc => exact hnone (by cases q <;> first | rfl | exact h.elim)
    | again t cid price ht h hp hc => exact hnone (by rw [h]; rfl)
    | clears h => exact hnone (by cases q <;> first | rfl | exact h.elim)
    | switches hsw h => exact hnone (by rcases h with ⟨kind,rfl⟩|⟨kind,rfl⟩ <;> rfl)
    | opens t cid _ ht h hc =>
      obtain ⟨⟨n,hn⟩,hsome,hh⟩ := ht
      have hcid : ∀ req ∈ q.entry?, req.clientOrderId=cid := by
        intro req hreq
        cases q <;> cases hreq
        · exact congrArg EntryRequest.clientOrderId h
        · exact congrArg EntryRequest.clientOrderId h.1
      refine ⟨fun req hreq => ⟨t.id,hsome,req,hreq,n,(hcid req hreq).trans hn⟩,?_⟩
      rintro ⟨hd,hid,req,hreq,m,hm⟩
      have heq := legCid_inj (((hcid req hreq).trans hn).symm.trans hm)
      exact hh (Runtime.distinct_of_thread hd hsome hid heq.1)
  · exact hnone (Custody.Plea.noEntry ho hp)

end

/-- A step in a store whose client order ids tell the threads apart, and which starts an execution
only, as its callers do, for a pending opening intent of its thread. -/
structure Vouched (c : Config Runtime Unit Writer Call Answer String Operation)
    (a : Action Runtime Writer Call Answer String Operation)
    (c' : Config Runtime Unit Writer Call Answer String Operation) : Prop where
  pairs : ∀ threadId intentId, a.op=some (.executeOpen threadId intentId) → a.others=c.tasks →
    ∀ t i, c.state.thread threadId=some t → c.state.intent intentId=some i → t.unsent →
      i.kind=.open ∧ i.threadId=some t.id ∧ i.status=.pendingApproval
  distinct : c'.state.distinct

theorem entryRight_respected (id : String) : (entryRight id).Respected gateway Vouched where
  start o s w ts c' v hinv hv hne ha := by
    have hi : (onceOnly id).inv s v := ⟨hinv,by
      cases v with
      | free => exact .inl rfl
      | mine => exact absurd rfl hne
      | gone => exact .inr hv⟩
    refine entryRight_meets (p := o.power) (o.program_keeps onceOnly_laws hi ?_)
    refine o.admitted_of_unwatched (fun hw => hw) (fun _ => trivial) (fun _ _ _ => trivial) ?_
    intro tid iid ho t i ht hint hu
    obtain ⟨hk,htid,hst⟩ := ha.pairs tid iid (congrArg some ho) rfl t i ht hint hu
    exact ⟨i,by rw [id_of_intent hint]; exact hint,hk,htid,hst⟩
  drift s w s' w' hinv hd := by
    obtain ⟨ms,rfl⟩ := hd
    exact ⟨⟨hinv.stored,hinv.single⟩,fun _ i hi => ⟨i,hi,rfl,fun h => h⟩,fun _ h => h⟩

omit [Host] in
theorem intent_fresh (backend : Backend) (workflow : Workflow) (now : ℕ) (id : String) :
    (Runtime.fresh backend workflow now).intent id=none := rfl

omit [Host] in
theorem filed_fresh (backend : Backend) (workflow : Workflow) (now : ℕ) :
    Filed (Runtime.fresh backend workflow now) := by
  have hno : ∀ id, ∀ i : DemoIntent, i ∉ (Runtime.fresh backend workflow now).intent id := by
    intro id i hi
    rw [Option.mem_def,intent_fresh] at hi
    cases hi
  exact ⟨fun id i hi => absurd hi (hno id i),fun id _ i hi => absurd hi (hno id i)⟩

/-- The step sends the entry of a stored thread. -/
def Sends (id : String) (a : Action Runtime Writer Call Answer String Operation)
    (c' : Config Runtime Unit Writer Call Answer String Operation) : Prop :=
  ∃ q ∈ a.sent, c'.state.entryFor id q

theorem fresh_ordered (id : String) (backend : Backend) (workflow : Workflow) (now : ℕ) :
    (entryRight id).Ordered (⟨Runtime.fresh backend workflow now,(),[]⟩ :
      Config Runtime Unit Writer Call Answer String Operation) where
  inv := filed_fresh backend workflow now
  tasks := by
    refine ⟨.free,fun iid i hi => ?_,by decide,fun t ht => ?_⟩
    · rw [Option.mem_def,intent_fresh] at hi
      cases hi
    · cases ht

section
variable {c c' c₁ c₂ : Config Runtime Unit Writer Call Answer String Operation}
  {a a' : Action Runtime Writer Call Answer String Operation}

/-- An intent keeps its thread. -/
theorem threadId_kept (id : String) (h : (entryRight id).Ordered c) (hs : Step gateway c a c')
    (ha : Vouched c a c') (h' : Run gateway Vouched c' c₁) (hs' : Step gateway c₁ a' c₂)
    (ha' : Vouched c₁ a' c₂) {iid : String} {i j : DemoIntent} (hi : c'.state.intent iid=some i)
    (hj : c₂.state.intent iid=some j) : j.threadId=i.threadId := by
  have hr := entryRight_respected id
  obtain ⟨hord,hgoes⟩ := hr.run (hr.step h hs ha).1 h'
  have hgoes' : Onward c'.state c₂.state := (show Onward _ _ from hgoes).trans (hr.step hord hs' ha').2.1
  obtain ⟨j',hj',hterms,-⟩ := hgoes'.intent iid i hi
  rw [Option.mem_def,hj] at hj'
  cases hj'
  exact (terms_parts hterms).2.2

/-- Every entry that is sent is that of a stored thread; of two steps of a run, at most one sends the
entry of a thread, and at most one that of an intent. -/
theorem entry_sent_once {backend : Backend} {workflow : Workflow} {now : ℕ}
    (h : Run gateway Vouched ⟨Runtime.fresh backend workflow now,(),[]⟩ c) (hs : Step gateway c a c')
    (ha : Vouched c a c') (h' : Run gateway Vouched c' c₁) (hs' : Step gateway c₁ a' c₂)
    (ha' : Vouched c₁ a' c₂) :
    ((sentEntry a).isSome → ∃ id, Sends id a c') ∧ (∀ id, Sends id a c' → ¬Sends id a' c₂) ∧
      ∀ iid, ∀ i ∈ c'.state.intent iid, ∀ j ∈ c₂.state.intent iid, ∀ id ∈ i.threadId,
        ∀ id' ∈ j.threadId, Sends id a c' → ¬Sends id' a' c₂ := by
  have hord : ∀ id, (entryRight id).Ordered c := fun id =>
    ((entryRight_respected id).run (fresh_ordered id backend workflow now) h).1
  have honce : ∀ id, Sends id a c' → ¬Sends id a' c₂ := by
    rintro id ⟨q,hq,hent⟩ ⟨q',hq',hent'⟩
    exact (entryRight_respected id).once (hord id) .refl hs ha ⟨q,hq,ha.distinct,hent⟩ h' hs' ha' q' hq'
      ⟨ha'.distinct,hent'⟩
  refine ⟨fun hsome => ?_,honce,fun iid i hi j hj id hid id' hid' hsend => ?_⟩
  · obtain ⟨req,hreq⟩ := Option.isSome_iff_exists.mp hsome
    obtain ⟨q,hq,hreq⟩ := Option.bind_eq_some_iff.mp hreq
    obtain ⟨tid,ht⟩ := (((entryRight_respected "").step (hord "") hs ha).2.2 q hq).1 req hreq
    exact ⟨tid,q,hq,ht⟩
  · have hkept := threadId_kept id (hord id) hs ha h' hs' ha' hi hj
    rw [Option.mem_def] at hid hid'
    rw [hkept,hid] at hid'
    cases hid'
    exact honce id hsend

end

theorem sends_of_entry {a : Action Runtime Writer Call Answer String Operation}
    {c' : Config Runtime Unit Writer Call Answer String Operation} {id : String} {n : ℕ}
    (h : (sentEntry a).map EntryRequest.clientOrderId=some (legCid id .e n))
    (hs : (c'.state.thread id).isSome) : Sends id a c' := by
  obtain ⟨req,hreq,hcid⟩ := Option.map_eq_some_iff.mp h
  obtain ⟨q,hq,hreq⟩ := Option.bind_eq_some_iff.mp hreq
  exact ⟨q,hq,hs,req,hreq,n,hcid⟩

section scripts

/-- Executions are not started, and the client order ids tell the threads apart. -/
def plainlyVouched (_ : Config Runtime Unit Writer Call Answer String Operation)
    (a : Action Runtime Writer Call Answer String Operation)
    (c' : Config Runtime Unit Writer Call Answer String Operation) : Bool :=
  decide c'.state.distinct && a.op.all fun o => match o with
    | .executeOpen _ _ => false
    | _ => true

theorem vouched_of_plainly {c c' : Config Runtime Unit Writer Call Answer String Operation}
    {a : Action Runtime Writer Call Answer String Operation} (h : plainlyVouched c a c'=true) :
    Vouched c a c' := by
  obtain ⟨hd,ho⟩ := Bool.and_eq_true_iff.mp h
  refine ⟨fun tid iid hop => ?_,of_decide_eq_true hd⟩
  rw [hop] at ho
  cases ho

/-- The account answers, another order of the panel follows, and its entry is sent. -/
def nextOrderMoves : List (Move Runtime Unit Call Answer Operation) :=
  answered 3++panelMoves "ETHUSDT" true

end scripts

omit [Host] in
/-- One order sends the entry of its thread, and the next one that of another. -/
theorem entries_sent_in_turn : letI := oneDigest
    ∃ (c c₂ : Config Runtime Unit Writer Call Answer String Operation)
      (a a' : Action Runtime Writer Call Answer String Operation),
      Sends "thr-0" a c ∧ (sentEntry a').isSome ∧ ¬Sends "thr-0" a' c₂ := by
  let := oneDigest
  let c := configAfter (panelMoves "BTCUSDT" false)
  let c' := c.move gateway (.resume 0)
  let c₁ := c'.play gateway nextOrderMoves
  have h : Run gateway Vouched _ c :=
    .of_along .refl (gateway_legalPlay (timely_panelMoves _ _) _) (by decide +kernel)
      fun _ _ _ => vouched_of_plainly
  have hs : Step gateway c (c.act gateway (.resume 0)) c' := .of_applies trivial (by decide +kernel)
  have ha : Vouched c (c.act gateway (.resume 0)) c' := vouched_of_plainly (by decide +kernel)
  have hlegal : c'.LegalPlay gateway nextOrderMoves := gateway_legalPlay (List.forall_append.mpr
    ⟨timely_answered 3,timely_panelMoves _ _⟩) _
  have h' : Run gateway Vouched c' c₁ :=
    .of_along .refl hlegal (by decide +kernel) fun _ _ _ => vouched_of_plainly
  have hs' : Step gateway c₁ (c₁.act gateway (.resume 0)) (c₁.move gateway (.resume 0)) :=
    .of_applies trivial (by decide +kernel)
  have hsend : Sends "thr-0" (c.act gateway (.resume 0)) c' :=
    sends_of_entry (n := 1) (by decide +kernel) (by decide +kernel)
  exact ⟨c',c₁.move gateway (.resume 0),_,c₁.act gateway (.resume 0),hsend,by decide +kernel,
    (entry_sent_once h hs ha h' hs' (vouched_of_plainly (by decide +kernel))).2.1 "thr-0" hsend⟩

end TradeGate
