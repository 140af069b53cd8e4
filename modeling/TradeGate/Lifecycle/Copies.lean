import TradeGate.Entry.Drawn
import TradeGate.Entry.Freeze
import TradeGate.Lifecycle.Sole

/-! Which copies the operations under way can hold.  Once a thread is stored as closed or canceled it stays
so in every run in which none of them can hold a copy of it when it ends. -/
namespace TradeGate
open Coop Contract

/-- The plans of the threads that an operation reads or creates: those it is given the id or the intent of,
those of its symbol, or, where it goes through all open threads and awaits between them, any. -/
def Operation.aims (s : Runtime) : Operation → Plan → Prop
  | .poll, _ => True
  | .executeOpen threadId _, x | .closeThread threadId _, x | .review threadId _, x => x.id=threadId
  | .approveIntent intentId, x | .approve intentId _ _, x =>
    ∃ i ∈ s.intent intentId, i.threadId=some x.id
  | .openThreadFromProposal symbol _ _ _ _ _, x | .scan symbol _ _ _ _ _, x | .adoptPosition symbol _ _, x =>
    x.symbol=symbol
  | .manualOrder req _, x => x.symbol=req.symbol
  | _, _ => False

instance (s : Runtime) (o : Operation) (x : Plan) : Decidable (o.aims s x) := by
  cases o <;> unfold Operation.aims <;> infer_instance

/-- While it is suspended the operation can hold a copy of the stored thread. -/
def Operation.mayHold (o : Operation) (id : String) (s : Runtime) : Prop := ∃ u ∈ s.thread id, o.aims s u.plan

instance (o : Operation) (id : String) (s : Runtime) : Decidable (o.mayHold id s) :=
  inferInstanceAs (Decidable (∃ u ∈ s.thread id, _))

/-- The operation is still at the request it starts with. -/
def Unread [Host] (t : Task Runtime Writer Call Answer String Operation) : Prop :=
  ∃ q k, t.op.program=.await q k ∧ (t.susp=.waiting q k ∨ ∃ r, t.susp=.served q r k)

/-- A step ends the thread only while every operation it passes over that can hold a copy of it is still at
the request it starts with. -/
def Released [Host] (id : String) (c : Config Runtime Unit Writer Call Answer String Operation)
    (a : Action Runtime Writer Call Answer String Operation)
    (c' : Config Runtime Unit Writer Call Answer String Operation) : Prop :=
  ¬c.state.endedAt id → c'.state.endedAt id → ∀ t ∈ a.others, t.op.mayHold id c.state → Unread t

/-- Threads and intents are kept, and the end of the thread is. -/
structure EndKept (id : String) (s s' : Runtime) : Prop where
  plans : PlansKept s s'
  onward : Onward s s'
  ended : s.endedAt id → s'.endedAt id

/-- What an operation relies on while it is suspended: the thread does not end where it can hold a copy. -/
structure Operation.Stays (o : Operation) (id : String) (s s' : Runtime) : Prop extends EndKept id s s' where
  lives : o.mayHold id s → ¬s.endedAt id → ¬s'.endedAt id

section
variable {id : String} {o : Operation} {s s' s'' : Runtime} {x : Plan} {t u v : StrategyThread}

theorem EndKept.refl (id : String) (s : Runtime) : EndKept id s s := ⟨.refl s,.refl s,fun h => h⟩

theorem EndKept.trans (h : EndKept id s s') (h' : EndKept id s' s'') : EndKept id s s'' :=
  ⟨h.plans.trans h'.plans,h.onward.trans h'.onward,fun he => h'.ended (h.ended he)⟩

theorem EndKept.aside (ht : s'.threads=s.threads) (hi : s'.intents=s.intents) : EndKept id s s' :=
  ⟨.of_threads ht,⟨fun id i h => ⟨i,by rwa [Option.mem_def,Runtime.intent,hi],rfl,fun h => h⟩,
    fun id hid => by rwa [thread_congr ht]⟩,(Runtime.endedAt_congr ht id).mpr⟩

theorem Operation.aims_onward (h : o.aims s x) (hs : Onward s s') : o.aims s' x := by
  have hi : ∀ intentId : String, (∃ i ∈ s.intent intentId, i.threadId=some x.id) →
      ∃ i ∈ s'.intent intentId, i.threadId=some x.id := fun intentId ⟨i,hi,ht⟩ => by
    obtain ⟨i',hi',hterms,-⟩ := hs.intent intentId i hi
    exact ⟨i',hi',(terms_parts hterms).2.2.trans ht⟩
  cases o with
  | approveIntent intentId => exact hi intentId h
  | approve intentId nonce by_ => exact hi intentId h
  | _ => exact h

theorem Operation.mayHold_kept (h : o.mayHold id s) (hs : EndKept id s s') : o.mayHold id s' := by
  obtain ⟨u,hu,ha⟩ := h
  obtain ⟨u',hu',hp⟩ := hs.plans id u hu
  exact ⟨u',hu',hp ▸ aims_onward ha hs.onward⟩

theorem Operation.Stays.refl (o : Operation) (id : String) (s : Runtime) : o.Stays id s s :=
  ⟨.refl id s,fun _ h => h⟩

theorem Operation.Stays.trans (h : o.Stays id s s') (h' : o.Stays id s' s'') : o.Stays id s s'' :=
  ⟨h.toEndKept.trans h'.toEndKept,fun hm hn => h'.lives (mayHold_kept hm h.toEndKept) (h.lives hm hn)⟩

/-- A copy of a stored thread with such a plan, while neither it nor the stored thread has ended. -/
structure Copied (id : String) (aims : Plan → Prop) (t : StrategyThread) (s : Runtime) : Prop where
  aim : aims t.plan
  stored : OfStored t s
  live : Unended id t s

variable {aims : Plan → Prop}

theorem Copied.kept (h : Copied id aims t s) (hp : PlansKept s s') (hl : Unended id t s') : Copied id aims t s' :=
  ⟨h.aim,h.stored.kept hp,hl⟩

/-- Where the thread stays, so do the copies of it. -/
theorem Copied.stays (h : Copied id aims t s) (ha : ∀ x, aims x → o.aims s x) (hs : o.Stays id s s') :
    Copied id aims t s' := by
  refine h.kept hs.plans fun hid => ⟨(h.live hid).1,hs.lives ?_ (h.live hid).2⟩
  obtain ⟨u,hu,hp⟩ := h.stored
  exact ⟨u,hid ▸ hu,hp ▸ ha _ h.aim⟩

theorem Copied.reread (h : Copied id aims t s) : Copied id aims ((s.thread t.id).getD t) s := by
  have hl := h.live.reread
  obtain ⟨u,hu,hp⟩ := h.stored
  rw [hu,Option.getD_some] at hl ⊢
  exact ⟨hp ▸ h.aim,.of_thread hu,hl⟩

end

/-- The copies that an operation under way may store. -/
def copies (o : Operation) (id : String) (aims : Plan → Prop) : Custody Unit where
  inv s _ := ∀ x, aims x → o.aims s x
  held t s _ := Copied id aims t s
  known t s _ := Copied id aims t s
  kin _ _ _ := True
  leg _ _ _ _ := True
  again _ _ _ _ := True
  spent _ _ _ := True
  ticket _ _ _ _ := True
  owned i s _ := ∃ x, s.intent i.id=some x ∧ x.terms=i.terms
  pairs _ _ _ _ := True
  back s _ _ _ s' _ := o.Stays id s s'
  watch := False
  aims := aims

section
variable {id : String} {o : Operation} {aims : Plan → Prop} {s s' : Runtime} {w : Unit} {p : Power} {l : Writer}

theorem copies_owns : (copies o id aims).Owns := ⟨fun h => h⟩

variable [Host]

theorem copies_laws : (copies o id aims).Laws p where
  known_of_held h := h
  kin_of_held _ _ := trivial
  kin_plan _ _ := trivial
  back_inv h hb x hx := Operation.aims_onward (h x hx) hb.onward
  back_held h hb ht := ht.stays h hb
  back_known h hb ht := ht.stays h hb
  back_kin _ _ _ := trivial
  back_leg _ _ _ _ := trivial
  back_again _ _ _ := trivial
  back_spent _ _ _ := trivial
  back_ticket _ _ _ _ := trivial
  back_owned _ hb h := Custody.owned_onward h hb.onward
  back_now hw := hw.elim
  listed _ ht ha :=
    have hstored := Runtime.thread_of_mem (Runtime.mem_openThreads ht).1
    ⟨ha,.stored hstored,.of_thread hstored (Runtime.mem_openThreads ht).2.1⟩
  reread _ h := Copied.reread h
  takeIntent {i s w} _ hi := ⟨i,hi,rfl⟩
  takePair _ _ _ _ _ := trivial
  deed_inv h hd x hx := Operation.aims_onward (h x hx) (hd.onward copies_owns)
  deed_quiet _ hd hq :=
    have hp := hd.keepsPlans Copied.stored
    ⟨fun h => h.kept hp (h.live.quiet hq),fun h => h.kept hp (h.live.quiet hq)⟩
  watch_known hw := hw.elim
  watch_spent hw := hw.elim
  deed_edit _ h he hu := ⟨he.plan ▸ h.aim,.stored (Runtime.thread_saveThread_self _ _),
    h.live.edited (congrArg Plan.id he.plan) hu⟩
  deed_known _ h he hu hv hk := hk.kept (h.stored.saved he.plan)
    (h.live.saved (congrArg Plan.id he.plan) hu hv hk.live)
  deed_mints _ _ _ _ _ := trivial
  deed_create {t s w} _ hc ha := ⟨ha,.stored (Runtime.thread_saveThread_self s t),
    .of_thread (Runtime.thread_saveThread_self s t) (.inr (congrArg Progress.status hc.progress))⟩
  deed_kin _ _ _ := trivial
  deed_leg _ _ _ := trivial
  deed_again _ _ _ := trivial
  deed_spent _ _ _ := trivial
  deed_ticket _ _ _ := trivial
  deed_owned _ hd h := Custody.owned_onward h (hd.onward copies_owns)
  patch_owned _ h ht := Custody.owned_congr h ht
  propose {t i s w s'} _ h hc ha hd := by
    have hi : s'.intent i.id=some i := by rw [hd.intents,if_pos rfl]
    refine ⟨fun x hx => Operation.aims_onward (h x hx) hd.onward,⟨ha,?_,?_⟩,⟨i,hi,rfl⟩,trivial⟩
    · exact (OfStored.stored (Runtime.thread_saveThread_self s t)).kept hd.plansKept
    · exact .drawn (.inl (congrArg Progress.status hc.progress)) hd
  mint {t u i j s w} _ h ht ho _ hm hj hst _ := by
    obtain ⟨x,hx,hxt⟩ := ho
    have hs : Onward s ((s.saveThread u).saveIntent j) := (Onward.saveThread s u).trans
      (Onward.decide (i := i) (x := x) hx hxt hj (by rw [hst]; nofun))
    have hp : PlansKept s ((s.saveThread u).saveIntent j) := (ht.stored.saved hm.plan).trans (.of_threads rfl)
    refine ⟨fun x hx => Operation.aims_onward (h x hx) hs,fun v hv hvt => ?_,trivial,trivial,trivial,?_⟩
    · exact ⟨hv ▸ ht.aim,(ht.stored.kept hp).congr hv,ht.live.minted hm hv hvt⟩
    · exact ⟨j,by rw [intent_saveIntent,if_pos rfl],rfl⟩

/-- Threads, intents and the end are kept; a suspended operation relies on the thread to stay where it can
hold a copy. -/
def Operation.endDuty (o : Operation) (id : String) : Guarantee Runtime Unit Writer Call Answer where
  may _ _ _ := True
  write s _ _ s' := EndKept id s s'
  serve _ _ _ _ _ := True
  waits _ p p' := o.Stays id p.1 p'.1
  holds _ _ p p' := o.Stays id p.1 p'.1

variable {send : Unit → Call → Unit} {w' : Unit}

omit [Host] in
theorem star_stays {p p' : Runtime×Unit}
    (h : Relation.ReflTransGen (fun p p' : Runtime×Unit => o.Stays id p.1 p'.1) p p') : o.Stays id p.1 p'.1 := by
  induction h with
  | refl => exact .refl o id _
  | tail _ h ih => exact ih.trans h

omit [Host] in
theorem endDuty_back {q : Call} {r : Answer q}
    (h : ((o.endDuty id).contract send fun _ _ => True).back s w q r s' w') : o.Stays id s s' := by
  obtain ⟨-,⟨s₁,w₁,w₂,h₁,-,h₂⟩,-⟩ := h
  exact (star_stays h₁).trans (star_stays h₂)

omit [Host] in
/-- Where it starts an operation may do what it does with the threads it is about. -/
theorem Operation.admitted_of_aims (hne : o ≠ .halt) : o.Admitted (copies o id (o.aims s)) s w := by
  have hheld : ∀ {tid : String} {t : StrategyThread}, s.thread tid=some t → t.isOpen → o.aims s t.plan →
      (copies o id (o.aims s)).held t s w := fun {tid t} ht ho ha => by
    have ht' : s.thread t.id=some t := by rw [Runtime.id_of_thread ht]; exact ht
    exact ⟨ha,.stored ht',.of_thread ht' ho⟩
  cases o with
  | poll => exact ⟨fun _ => trivial,fun _ _ _ _ _ _ hw => hw.elim⟩
  | halt => exact absurd rfl hne
  | executeOpen threadId intentId =>
    exact fun t i ht _ hu => ⟨hheld ht (.inl hu.1) (Runtime.id_of_thread ht),trivial⟩
  | approveIntent intentId =>
    exact fun i t hi htid ht ho => ⟨hheld ht ho ⟨i,hi,htid⟩,fun _ hw => hw.elim⟩
  | approve intentId nonce by_ =>
    exact fun i t hi htid ht ho => ⟨hheld ht ho ⟨i,hi,htid⟩,fun _ hw => hw.elim⟩
  | rejectIntent intentId => exact fun _ _ _ _ _ hw => hw.elim
  | closeThread threadId reason => exact fun t ht ho => hheld ht ho (Runtime.id_of_thread ht)
  | review threadId action =>
    exact fun t ht ho => ⟨hheld ht ho (Runtime.id_of_thread ht),fun _ hw => hw.elim⟩
  | manualOrder req close => exact ⟨fun _ h => h,fun _ _ _ _ _ _ _ hw => hw.elim⟩
  | adoptPosition => exact fun _ h => h
  | openThreadFromProposal => exact fun _ h => h
  | scan => exact fun _ h => h
  | _ => trivial

/-! A halt reads the open threads and stores them in one burst: it holds no copy while it is suspended. -/

omit [Host] in
/-- The listed threads are stored one after the other, each as it was listed until then. -/
theorem haltThreads_duty (failed : List String) (now : ℕ) {ts : List StrategyThread}
    (hnd : (ts.map StrategyThread.id).Nodup) (ht : ∀ t ∈ ts, t.isOpen ∧ s.thread t.id=some t) :
    ((Operation.halt.endDuty id).contract send fun _ _ => True).Meets
      (ts.forM fun t => (saveThread .halt (haltThread failed now t) : RT Unit)) (fun _ _ _ => True) s w := by
  induction ts generalizing s with
  | nil => trivial
  | cons t ts ih =>
    obtain ⟨hnt,hnd⟩ := List.nodup_cons.mp hnd
    obtain ⟨hopen,hstored⟩ := ht t List.mem_cons_self
    have hplan : (haltThread failed now t).plan=t.plan := by
      unfold haltThread
      split <;> rfl
    have hid : (haltThread failed now t).id=t.id := congrArg Plan.id hplan
    refine Meets.update_bind.mpr ⟨⟨(OfStored.stored hstored).saved hplan,.saveThread s _,fun he => ?_⟩,
      ih hnd fun v hv => ⟨(ht v (List.mem_cons_of_mem _ hv)).1,?_⟩⟩
    · rw [Runtime.endedAt_saveThread,hid]
      split
      · next h =>
        subst h
        exact absurd ((Runtime.endedAt_of_thread hstored).mp he) (Runtime.not_ended_of_open hopen)
      · exact he
    · rw [Runtime.thread_saveThread,if_neg]
      · exact (ht v (List.mem_cons_of_mem _ hv)).2
      · exact fun h => hnt (hid ▸ h ▸ List.mem_map_of_mem hv)

omit [Host] in
theorem flattenSymbols_labels (syms : List String) : (flattenSymbols syms).Labels fun _ => False := by
  suffices h : (flattenSymbols syms).Within (fun _ => False) fun _ => True from h.labels
  induction syms with
  | nil => trivial
  | cons sym syms ih =>
    exact .bind (.request trivial) fun _ => .read fun _ => .bind (.request trivial) fun _ => .read fun _ =>
      .bind ih fun _ => trivial

omit [Host] in
theorem halt_duty : (Operation.halt.endDuty id).Meets send (fun _ _ => True) halt s w := by
  refine Meets.update_bind.mpr ⟨.aside rfl rfl,Meets.read_bind.mpr ?_⟩
  refine Meets.bind (M := fun _ _ _ => True) (Prog.Labels.meets (fun _ _ _ _ h => h.elim)
    (fun _ _ _ => trivial) (fun _ _ => trivial) (flattenSymbols_labels _) _ _) fun failed s w _ => ?_
  refine Meets.read_bind.mpr (Meets.bind (haltThreads_duty failed s.now s.openThreads_nodup fun t ht => ?_)
    fun _ s w _ => ⟨trivial,fun _ _ _ _ => trivial⟩)
  exact ⟨(Runtime.mem_openThreads ht).2.1,Runtime.thread_of_mem (Runtime.mem_openThreads ht).1⟩

/-- Every operation does its duty from any state. -/
theorem Operation.program_duty (o : Operation) (s : Runtime) (w : Unit) :
    (o.endDuty id).Meets send (fun _ _ => True) o.program s w := by
  by_cases hne : o=.halt
  · subst hne
    exact halt_duty
  · have hinv : (copies o id (o.aims s)).inv s w := fun _ h => h
    refine Meets.weaken ((o.program_keeps copies_laws hinv (admitted_of_aims hne)).mono fun _ _ _ _ => trivial)
      (fun _ _ _ _ => trivial) (fun _ _ _ _ h => ?_) (fun _ _ _ _ _ _ h => endDuty_back h) fun _ _ _ => trivial
    exact ⟨h.keepsPlans Copied.stored,h.onward copies_owns,Stroke.absorbs Copied.live h⟩

/-- An operation that is still at the request it starts with may go on from any state. -/
theorem Unread.keeps {t : Task Runtime Writer Call Answer String Operation} (h : Unread t) :
    (t.op.endDuty id).Keeps send (fun _ _ => True) t.susp s w := by
  obtain ⟨q,k,hp,ht⟩ := h
  have hm : ∀ (r : Answer q) s w, (t.op.endDuty id).Meets send (fun _ _ => True) (k r) s w := fun r s w => by
    have h : (t.op.endDuty id).Meets send (fun _ _ => True) t.op.program s w := t.op.program_duty s w
    rw [hp] at h
    exact h.2 r s w ⟨trivial,⟨s,w,w,.refl,trivial,.refl⟩,trivial⟩
  rcases ht with ht|⟨r,ht⟩
  · rw [ht]
    exact fun r _ _ _ s w _ _ _ _ => hm r s w
  · rw [ht]
    exact fun s w _ _ => hm r s w

theorem endings_govern (id : String) : Guarantee.Governs (fun o : Operation => o.endDuty id) (fun _ _ => True)
    gateway (Released id) where
  start o s w _ _ _ _ := o.program_duty s w
  serve _ _ _ _ _ _ _ _ _ _ _ _ := trivial
  inv _ _ _ _ _ _ _ := trivial
  others c a c' _ hs ha hw t ht := by
    have hkept : EndKept id c.state c'.state := by
      obtain ⟨o,ho,hc,-⟩|⟨-,-,-,he,-⟩|⟨-,-,-,ms,hms⟩ := hs.kind
      · exact (hc.goes (EndKept.refl id) (fun _ _ _ h h' => h.trans h') (hw.writes o ho)).1
      · exact he ▸ .refl id _
      · exact hms ▸ .aside rfl rfl
    by_cases hr : ¬c.state.endedAt id ∧ c'.state.endedAt id ∧ t.op.mayHold id c.state
    · exact .inr (ha hr.1 hr.2.1 t ht hr.2.2).keeps
    · have hstays : t.op.Stays id c.state c'.state := ⟨hkept,fun hm hn he => hr ⟨hn,he,hm⟩⟩
      exact .inl (by cases t.susp <;> exact hstays)

/-- In every run from any store in which a thread only ends while no other operation under way can hold a
copy of it, a thread that has ended is never stored as anything else. -/
theorem ended_thread_stays_ended {s₀ : Runtime}
    {c c' : Config Runtime Unit Writer Call Answer String Operation}
    (h₀ : Run gateway (Released id) ⟨s₀,(),[]⟩ c) (h : Run gateway (Released id) c c')
    (he : c.state.endedAt id) : c'.state.endedAt id ∧
      ∀ a c'', Step gateway c' a c'' → ∀ x ∈ a.writes, x.post.endedAt id := by
  have hg := endings_govern id
  have hc : Guarantee.Holds (fun o : Operation => o.endDuty id) gateway (fun _ _ => True) c :=
    hg.run ⟨trivial,by simp⟩ h₀
  have hstep : ∀ {c a c'}, Guarantee.Holds (fun o : Operation => o.endDuty id) gateway (fun _ _ => True) c →
      Step gateway c a c' → c.state.endedAt id →
        c'.state.endedAt id ∧ ∀ x ∈ a.writes, x.post.endedAt id := by
    intro c a c' hc hs he
    have ho := hc.owed hg hs fun hn => absurd he hn
    obtain ⟨o,hop,hw,-⟩|⟨-,hw,-,heq,-⟩|⟨-,hw,-,ms,hms⟩ := hs.kind
    · exact hw.keeps (fun s : Runtime => s.endedAt id) (fun x hx => (ho.writes o hop x hx).ended) he
    · rw [heq,hw]
      exact ⟨he,by simp⟩
    · rw [hms,hw]
      exact ⟨he,by simp⟩
  obtain ⟨hc',he'⟩ := h.invariant
    (I := fun c => Guarantee.Holds (fun o : Operation => o.endDuty id) gateway (fun _ _ => True) c ∧
      c.state.endedAt id) ⟨hc,he⟩ fun c a c' hc hs ha =>
      ⟨hc.1.step hg hs ha,(hstep hc.1 hs hc.2).1⟩
  exact ⟨he',fun a c'' hs => (hstep hc' hs he').2⟩

end

section scripts

/-- A position is adopted and then closed on request, while an order of the panel for another symbol is under
way; the answer of the close is there. -/
def closingMoves : List (Move Runtime Unit Call Answer Operation) :=
  let closed := { replies with close := ⟨true,none,none,none⟩ : Replies }.answer
  adoptMoves++[.start (.manualOrder (panelOrder "ETHUSDT") false),.serve 0 flatAnswer id,.resume 0,
    .start (.closeThread "thr-0" "手动平仓"),.serve 1 closed id,.resume 1,.serve 1 closed id]

/-- A poll has just started when the close stores the end. -/
def closingConfig : Config Runtime Unit Writer Call Answer String Operation :=
  letI := oneDigest
  (configAfter closingMoves).move gateway (.start .poll)

/-- The order goes on until its entry is sent, then the close ends, and then the poll. -/
def besideClosed : List (Move Runtime Unit Call Answer Operation) :=
  answered 4++[.serve 1 flatAnswer id,.resume 1,.serve 1 flatAnswer id,.resume 1]

/-- The same close while a pass places the missing stop; the stop is refused afterwards. -/
def overtakenMoves : List (Move Runtime Unit Call Answer Operation) :=
  let closed := { replies with close := ⟨true,none,none,none⟩ : Replies }.answer
  let bare := { replies with account := .ok (heldView []), placed := ⟨.failed,none,none⟩ : Replies }.answer
  adoptMoves++[.start .poll,.serve 0 bare id,.resume 0,.start (.closeThread "thr-0" "手动平仓"),
    .serve 1 closed id,.resume 1,.serve 1 closed id,.resume 1,.serve 0 bare id]

theorem timely_closingMoves : closingMoves.Forall Timely :=
  ⟨trivial,trivial,trivial,trivial,trivial,trivial,trivial,trivial,trivial,trivial,trivial,trivial⟩

theorem timely_besideClosed : besideClosed.Forall Timely :=
  List.forall_append.mpr ⟨timely_answered 4,trivial,trivial,trivial,trivial⟩

theorem timely_overtakenMoves : overtakenMoves.Forall Timely :=
  ⟨trivial,trivial,trivial,trivial,trivial,trivial,trivial,trivial,trivial,trivial,trivial,trivial,
    trivial,trivial⟩

/-- The move does not end the thread. -/
def lasting (id : String) (c : Config Runtime Unit Writer Call Answer String Operation)
    (_ : Action Runtime Writer Call Answer String Operation)
    (c' : Config Runtime Unit Writer Call Answer String Operation) : Bool :=
  decide (c'.state.endedAt id → c.state.endedAt id)

theorem released_of_lasting [Host] {id : String} {c c' : Config Runtime Unit Writer Call Answer String Operation}
    {a : Action Runtime Writer Call Answer String Operation} (h : lasting id c a c'=true) : Released id c a c' :=
  fun hn he => absurd (of_decide_eq_true h he) hn

end scripts

/-- The order for the other symbol holds no copy when the thread ends, and the poll has read nothing yet. -/
theorem released_closing : letI := oneDigest
    Released "thr-0" closingConfig (closingConfig.act gateway (.resume 1)) (closingConfig.move gateway (.resume 1)) := by
  let := oneDigest
  intro _ _ t ht hm
  have htasks : closingConfig.tasks=(configAfter closingMoves).tasks++[⟨.poll,.waiting .account _⟩] := rfl
  have hlen : (configAfter closingMoves).tasks.length=2 := by decide +kernel
  have hfirst : ∀ t ∈ (configAfter closingMoves).tasks.take 1, ¬t.op.mayHold "thr-0" closingConfig.state := by
    decide +kernel
  rw [Config.others_act] at ht
  change t ∈ closingConfig.tasks.take 1++closingConfig.tasks.drop 2 at ht
  rw [htasks,List.take_append_of_le_length (by omega),← hlen,List.drop_left,List.mem_append,List.mem_singleton] at ht
  rcases ht with ht | rfl
  · exact absurd hm (hfirst t ht)
  · exact ⟨.account,_,rfl,.inl rfl⟩

/-- The thread ends between the steps of an order and of a poll, and stays so while both go on and the order
opens its own thread. -/
theorem closed_position_stays_closed : letI := oneDigest
    ((closingConfig.move gateway (.resume 1)).play gateway besideClosed).state.endedAt "thr-0" ∧
      ((closingConfig.move gateway (.resume 1)).play gateway besideClosed).state.openThreads.length=1 := by
  let := oneDigest
  have h₁ : Run gateway (Released "thr-0") _ (configAfter closingMoves) :=
    .of_along .refl (gateway_legalPlay timely_closingMoves _) (by decide +kernel) fun _ _ _ => released_of_lasting
  have h₂ : Run gateway (Released "thr-0") _ closingConfig :=
    .step h₁ (.of_applies (m := .start Operation.poll) trivial trivial) (released_of_lasting (by decide +kernel))
  have h₃ := Run.step h₂ (.of_applies (m := .resume 1) trivial (by decide +kernel)) released_closing
  have h : Run gateway (Released "thr-0") (closingConfig.move gateway (.resume 1))
      ((closingConfig.move gateway (.resume 1)).play gateway besideClosed) :=
    .of_along .refl (gateway_legalPlay timely_besideClosed _) (by decide +kernel) fun _ _ _ => released_of_lasting
  exact ⟨(ended_thread_stays_ended h₃ h (by decide +kernel)).1,by decide +kernel⟩

/-- A thread that was closed while a pass held a copy of it is stored as in position again. -/
theorem closed_thread_reopened : ¬∀ (h : Host) (s₀ : Runtime) (id : String)
    (c c' : Config Runtime Unit Writer Call Answer String Operation),
      Run (@gateway h) anyStep ⟨s₀,(),[]⟩ c → Run (@gateway h) anyStep c c' →
        c.state.endedAt id → c'.state.endedAt id := by
  intro hall
  let := oneDigest
  have h₀ : Run gateway anyStep _ (configAfter overtakenMoves) :=
    .of_play .refl (gateway_legalPlay timely_overtakenMoves _)
  have hlast : [Move.resume 0].Forall (Timely (O := Operation)) := trivial
  have h := Run.of_play .refl (gateway_legalPlay hlast (configAfter overtakenMoves))
  exact absurd (hall oneDigest _ "thr-0" _ _ h₀ h (by decide +kernel)) (by decide +kernel)

end TradeGate
