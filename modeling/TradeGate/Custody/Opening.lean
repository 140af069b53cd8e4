import TradeGate.Custody.Patrol

/-! Openings as deeds of a custody: the entry of a pending intent, and the threads that proposals and
the order panel create. -/
namespace TradeGate
open Coop Contract

variable {ω : Type} {K : Custody ω} {s s' : Runtime} {w w' : ω} {p : Power} {t u : StrategyThread}
  {i : DemoIntent} {cid : String}

/-- No copies beside. -/
def Alone (_ : StrategyThread) : Prop := False

theorem offThread_alone (id : String) : OffThread id Alone := fun _ h => h.elim

section
variable [Host]

/-- The ids of the legs that go out with an entry are the next ones of the thread. -/
theorem mintLegs_parts (t : StrategyThread) (tps : List String) :
    (mintLegs t tps).stop=legCid t.id .s (t.legSeq+1) ∧
      (∀ x ∈ (mintLegs t tps).tp, x.2=legCid t.id .t (t.legSeq+2) ∧
        (mintLegs t tps).thread.legSeq=t.legSeq+2 ∧ tps.head?=some x.1) ∧
      (mintLegs t tps).thread.plan=t.plan ∧ (mintLegs t tps).thread.progress=t.progress ∧
      (mintLegs t tps).thread.attention=t.attention ∧ t.legSeq+1 ≤ (mintLegs t tps).thread.legSeq := by
  unfold mintLegs
  dsimp only
  split
  · exact ⟨rfl,nofun,rfl,rfl,rfl,le_rfl⟩
  · next price hprice =>
    refine ⟨rfl,fun x hx => ?_,rfl,rfl,rfl,Nat.le_succ _⟩
    cases hx
    exact ⟨rfl,rfl,(Option.filter_eq_some_iff.mp hprice).1⟩

end

/-- Nothing objects to an opening, so no open thread has the symbol. -/
theorem alone_of_preflightOpen {symbol : String} {account : AccountView}
    (h : s.preflightOpen symbol account none=[]) : ¬∃ o ∈ s.openThreads, o.symbol=symbol := by
  rintro ⟨o,ho,hs⟩
  unfold Runtime.preflightOpen openingBlockers at h
  simp only [List.append_eq_nil_iff] at h
  obtain ⟨⟨-,⟨⟨hblock,-⟩,-⟩,-⟩,-⟩ := h
  split at hblock
  · cases hblock
  · next hn =>
    refine hn ⟨o,?_,hs⟩
    have hopen := (Runtime.mem_openThreads ho).2.1
    simp [ho,hopen]

namespace Custody

/-- An opening under way: the entry id is taken, and the entry may be sent under it. -/
structure Armed (K : Custody ω) (t : StrategyThread) (cid : String) (i : DemoIntent) (s : Runtime)
    (w : ω) : Prop where
  inv : K.inv s w
  known : ∀ v : StrategyThread, v.plan=t.plan → v.progress=t.progress → K.known v s w
  kin : K.kin t s w
  ticket : K.ticket t cid s w
  spent : K.spent t.id s w
  owned : K.owned i s w

/-- The entry was sent: what is left to do with the stored thread and its intent. -/
structure Sent (K : Custody ω) (cur : StrategyThread) (i : DemoIntent) (placed : Option PlacedLegs)
    (s : Runtime) (w : ω) : Prop extends K.Hand cur Alone s w where
  spent : K.spent cur.id s w
  owned : K.owned i s w
  again : ∀ l ∈ placed, K.again cur.id l.stop.1 s w
  sure : K.Sure cur s

variable [Host]

namespace Laws

variable (hK : K.Laws p)
include hK

theorem armed_back {q : Call} {r : Answer q} (h : K.Armed t cid i s w) (hq : q.places=[])
    (hb : K.back s w q r s' w') : K.Armed t cid i s' w' :=
  ⟨hK.back_inv h.inv hb,fun v h₁ h₂ => hK.back_known h.inv hb (h.known v h₁ h₂),
    hK.back_kin h.inv hb h.kin,hK.back_ticket h.inv hb hq h.ticket,hK.back_spent h.inv hb h.spent,
    hK.back_owned h.inv hb h.owned⟩

theorem armed_of_deed {l : Writer} (h : K.Armed t cid i s w) (hd : K.Deed p l s w s')
    (hq : ∀ id, Quiet id s s') : K.Armed t cid i s' w :=
  ⟨hK.deed_inv h.inv hd,fun v h₁ h₂ => (hK.deed_quiet h.inv hd (hq v.id)).2 (h.known v h₁ h₂),
    hK.deed_kin h.inv hd h.kin,
    hK.deed_ticket h.inv hd h.ticket,hK.deed_spent h.inv hd h.spent,hK.deed_owned h.inv hd h.owned⟩

omit [Host] hK in
theorem armed_grip (h : K.Armed t cid i s w) : K.Grip t Alone s w :=
  ⟨⟨h.inv,fun _ hv => hv.elim⟩,offThread_alone _,h.known t rfl rfl,h.kin⟩

/-- A request of an opening that leaves its entry to be sent. -/
theorem armed_ask {α : Type} {P : α → Runtime → ω → Prop} {q : Call} {k : Answer q → RT α}
    (h : K.Armed t cid i s w) (hp : p=.opening) (hq : q.asks ∨ q.opensThread t cid)
    (hn : q.places=[])
    (hk : ∀ r s' w', K.Armed t cid i s' w' → K.Keeps p (k r) P s' w') :
    K.Keeps p (ask q >>= k) P s w := by
  refine ⟨⟨h.inv,?_⟩,fun r s' w' hb => hk r s' w' (hK.armed_back h hn hb)⟩
  rcases hq with hq|hq
  · exact .asks hq
  · exact .opens t cid hp h.ticket hq fun c hc => by simp [hn] at hc

theorem armed_update {l : Writer} {f : Runtime → Runtime} {α : Type} {P : α → Runtime → ω → Prop}
    {k : Unit → RT α} (h : K.Armed t cid i s w) (hd : K.Deed p l s w (f s))
    (hq : (f s).threads=s.threads)
    (hk : K.Armed t cid i (f s) w → K.Keeps p (k ()) P (f s) w) :
    K.Keeps p (Prog.update l f >>= k) P s w :=
  ⟨.deed h.inv hd,hk (hK.armed_of_deed h hd (.of_threads hq))⟩

theorem sizingRefusal_keeps (h : K.Armed t cid i s w) (hp : p=.opening) (intent : DemoIntent)
    (fresh : AccountView) : K.Keeps p (sizingRefusal t intent fresh)
      (fun _ s w => K.Armed t cid i s w) s w := by
  unfold sizingRefusal
  split
  · refine hK.armed_ask h hp (.inl trivial) rfl fun r s₁ w₁ h₁ => ?_
    cases r with
    | error e => exact h₁
    | ok d =>
      obtain ⟨mark,rules⟩ := d
      exact hK.armed_update h₁ (.aside rfl rfl rfl (.inl rfl) (.inl rfl) (.same rfl rfl)) rfl fun h₂ => h₂
  · exact h

theorem armRefusal_keeps (h : K.Armed t cid i s w) (hp : p=.opening) :
    K.Keeps p (armRefusal t) (fun _ s w => K.Armed t cid i s w) s w := by
  unfold armRefusal
  refine hK.armed_ask h hp (.inr ⟨rfl,rfl⟩) rfl fun lev s₁ w₁ h₁ => ?_
  split
  · exact h₁
  · refine hK.armed_ask h₁ hp (.inr ⟨rfl,rfl⟩) rfl fun mt s₂ w₂ h₂ => ?_
    split
    · exact h₂
    · exact h₂

theorem openingRefusal_keeps (h : K.Armed t cid i s w) (hp : p=.opening) (intent : DemoIntent) :
    K.Keeps p (openingRefusal t intent) (fun _ s w => K.Armed t cid i s w) s w := by
  unfold openingRefusal
  refine hK.armed_ask h hp (.inl trivial) rfl fun r s₁ w₁ h₁ => ?_
  cases r with
  | error e => exact h₁.inv
  | ok fresh =>
    simp only [orThrow,Prog.done_bind]
    refine hK.armed_update h₁ (Deed.setAccount fresh) rfl fun h₂ => ?_
    simp only [Meets.read_bind]
    split
    · exact h₂
    · refine Meets.bind (hK.sizingRefusal_keeps h₂ hp intent fresh) fun r s₃ w₃ h₃ => ?_
      cases r with
      | some why => exact h₃
      | none => exact hK.armRefusal_keeps h₃ hp

/-- An intent in hand is patched. -/
theorem patch_armed {f : DemoIntent → DemoIntent} (h : K.Armed t cid i s w) (hp : p=.opening)
    (ht : (f i).terms=i.terms) (hs : (f i).status ≠ .pendingApproval) :
    K.Keeps p (updateIntent i f) (fun j s w => j=f i ∧ K.Armed t cid i s w) s w := by
  have hd : K.Deed p .intent s w (s.saveIntent (f i)) := .patch h.owned ht (fun _ => .inl hp) hs
  exact ⟨.deed h.inv hd,rfl,hK.armed_of_deed h hd (.of_threads rfl)⟩

theorem abortOpen_keeps (h : K.Armed t cid i s w) (hp : p=.opening) (why : String) :
    K.Keeps p (abortOpen t i why) (fun _ s w => K.inv s w) s w := by
  unfold abortOpen
  refine Meets.bind (hK.patch_armed h hp rfl nofun) fun _ s₁ w₁ ⟨_,h₁⟩ => ?_
  have hand := hK.hand_stored (armed_grip h₁)
  have hspent := h₁.spent
  rw [← id_getD_thread s₁ t] at hspent
  simp only [storedOr,Prog.pure_eq]
  refine Meets.mono (hK.save_rest hand ?_) fun _ _ _ h => h.inv
  exact ⟨rfl,le_rfl,.getD t,.ended rfl (.inr rfl) (.inr hspent) (.inr rfl) fun _ => .inl rfl⟩

/-- The reply to an entry: its legs may be placed once more, and nothing else was done. -/
structure Replied (K : Custody ω) (t : StrategyThread) (i : DemoIntent) (placed : Option PlacedLegs)
    (s : Runtime) (w : ω) : Prop where
  inv : K.inv s w
  known : K.known t s w
  kin : K.kin t s w
  spent : K.spent t.id s w
  owned : K.owned i s w
  again : ∀ l ∈ placed, K.again t.id l.stop.1 s w

theorem replied_back {q : Call} {r : Answer q} (h : K.Armed t cid i s w)
    (hb : K.back s w q r s' w') {placed : Option PlacedLegs}
    (hp : ∀ l ∈ placed, K.leg t.id l.stop.1 s w ∧ q.placesStop l.stop.1) : Replied K t i placed s' w' :=
  ⟨hK.back_inv h.inv hb,hK.back_known h.inv hb (h.known t rfl rfl),hK.back_kin h.inv hb h.kin,
    hK.back_spent h.inv hb h.spent,hK.back_owned h.inv hb h.owned,
    fun l hl => hK.back_again h.inv hb (.inr (hp l hl))⟩

theorem sendEntry_keeps (h : K.Armed t cid i s w) (hp : p=.opening) {minted : StrategyThread}
    (hm : minted.plan=t.plan) (hst : minted.progress=t.progress) :
    K.Keeps p (sendEntry t minted cid) (fun x s w => Replied K t i x.2 s w) s w := by
  simp only [sendEntry,Meets.read_bind]
  split
  · simp only [Meets.request_bind]
    refine ⟨⟨h.inv,.opens t cid hp h.ticket rfl fun c hc => .inl (List.mem_singleton.mp hc)⟩,?_⟩
    exact fun r s₁ w₁ hb => hK.replied_back h hb (by rintro _ ⟨⟩)
  · next price hprice =>
    obtain ⟨hprice,hcond⟩ := Option.filter_eq_some_iff.mp hprice
    simp only [decide_eq_true_eq] at hcond
    have hid : minted.id=t.id := congrArg Plan.id hm
    have hgrip : K.Grip minted Alone s w :=
      ⟨⟨h.inv,fun _ hv => hv.elim⟩,offThread_alone _,h.known minted hm hst,hK.kin_plan hm h.kin⟩
    have hand := hK.hand_stored hgrip
    have hfirm := Firm.getD (K := K) (s := s) minted
    rw [hid] at hand hfirm
    generalize hv : (s.thread t.id).getD minted=v at hand hfirm ⊢
    have hvid : v.id=t.id := by
      rw [← hv,← hid,id_getD_thread]
    obtain ⟨hstop,htp,hplan,hprog,hatt,hlegs⟩ := mintLegs_parts v t.takeProfits
    generalize mintLegs v t.takeProfits=legs at hstop htp hplan hprog hatt hlegs ⊢
    have he : K.Edit .open s w v legs.thread :=
      .note hfirm hplan (by omega) hprog fun ha => hatt ▸ ha
    have hend : legs.thread.ended → v.ended := by
      rw [StrategyThread.ended,show legs.thread.status=v.status from congrArg Progress.status hprog]
      exact id
    have hd : K.Deed p .open s w (s.saveThread legs.thread) := .edit hand.copy he
    have h₁ : K.Armed t cid i (s.saveThread legs.thread) w :=
      ⟨hK.deed_inv h.inv hd,fun x h₁ h₂ => hK.deed_known h.inv hand.copy he hend
          ((congrArg Plan.id h₁).trans hvid.symm) (h.known x h₁ h₂),hK.deed_kin h.inv hd h.kin,
        hK.deed_ticket h.inv hd h.ticket,
        hK.deed_spent h.inv hd h.spent,hK.deed_owned h.inv hd h.owned⟩
    have hleg : ∀ leg n, v.legSeq<n → n ≤ legs.thread.legSeq →
        K.leg t.id (legCid v.id leg n) (s.saveThread legs.thread) w := fun leg n =>
      hvid ▸ hK.deed_mints h.inv hand.copy he
    simp only [saveThread,Meets.update_bind,Meets.request_bind]
    refine ⟨.deed h.inv hd,⟨h₁.inv,.opens t cid hp h₁.ticket ⟨rfl,hcond.2.2,hprice,
        fun x hx => (htp x hx).2.2⟩ fun c hc => ?_⟩,
      fun r s₁ w₁ hb => hK.replied_back h₁ hb fun l hl => ?_⟩
    · rcases List.mem_cons.mp hc with rfl|hc
      · exact .inl rfl
      · rcases List.mem_cons.mp hc with rfl|hc
        · exact .inr (hstop ▸ hleg .s _ (Nat.lt_succ_self _) hlegs)
        · obtain ⟨x,hx,rfl⟩ := Option.map_eq_some_iff.mp (Option.mem_toList.mp hc)
          obtain ⟨hx₁,hx₂,-⟩ := htp x hx
          exact .inr (hx₁ ▸ hleg .t _ (by omega) hx₂.ge)
    · cases hl
      exact ⟨hstop ▸ hleg .s _ (Nat.lt_succ_self _) hlegs,rfl⟩

theorem sent_back {cur : StrategyThread} {placed : Option PlacedLegs} {q : Call} {r : Answer q}
    (h : K.Sent cur i placed s w) (hq : q.places=[]) (hb : K.back s w q r s' w') :
    K.Sent cur i placed s' w' :=
  ⟨hK.hand_back h.toHand hb,hK.back_spent h.inv hb h.spent,hK.back_owned h.inv hb h.owned,
    fun l hl => hK.back_again h.inv hb (.inl ⟨h.again l hl,by rw [hq]; nofun⟩),
    hK.sure_back h.inv h.sure hb⟩

theorem confirmOutcome_keeps {cur : StrategyThread} {placed : Option PlacedLegs}
    (h : K.Sent cur i placed s w) (cid : String) (outcome : OrderOutcome) :
    K.Keeps p (confirmOutcome t cid outcome) (fun _ s w => K.Sent cur i placed s w) s w := by
  unfold confirmOutcome
  split
  · refine ⟨⟨h.inv,.asks trivial⟩,fun _ s₁ w₁ hb => ?_⟩
    have h₁ := hK.sent_back h rfl hb
    refine ⟨⟨h₁.inv,.asks trivial⟩,fun r s₂ w₂ hb => ?_⟩
    have h₂ := hK.sent_back h₁ rfl hb
    rcases r with e|_|o <;> exact h₂
  · exact h

theorem sent_patch {cur : StrategyThread} {placed : Option PlacedLegs} {f : DemoIntent → DemoIntent}
    (h : K.Sent cur i placed s w) (hp : p=.opening) (ht : (f i).terms=i.terms)
    (hs : (f i).status ≠ .pendingApproval) :
    K.Keeps p (updateIntent i f) (fun _ s w => K.Sent cur i placed s w) s w := by
  have hd : K.Deed p .intent s w (s.saveIntent (f i)) := .patch h.owned ht (fun _ => .inl hp) hs
  exact ⟨.deed h.inv hd,hK.hand_of_deed h.toHand hd (.of_threads rfl),hK.deed_spent h.inv hd h.spent,
    hK.deed_owned h.inv hd h.owned,fun l hl => hK.deed_again h.inv hd (h.again l hl),h.sure⟩

omit hK in
theorem pollAccount_keeps (hK : K.Laws p) (h : K.inv s w) :
    K.Keeps p pollAccount (fun _ s w => K.inv s w) s w :=
  ⟨⟨h,.asks trivial⟩,fun _ _ _ hb => hK.back_inv h hb⟩

theorem settleEntry_keeps {cur : StrategyThread} {placed : Option PlacedLegs}
    (h : K.Sent cur i placed s w) (hp : p=.opening) (entry : OrderReceipt) (outcome : OrderOutcome) :
    K.Keeps p (settleEntry t cur i entry placed outcome) (fun _ s w => K.inv s w) s w := by
  simp only [settleEntry,Meets.read_bind]
  split
  · refine Meets.bind (hK.sent_patch h hp rfl (by rintro ⟨⟩)) fun _ s₁ w₁ h₁ => ?_
    exact (hK.save_rest h₁.toHand (.flag h₁.sure.firm (by rintro ⟨⟩) _)).mono fun _ _ _ h => h.inv
  · refine Meets.bind (hK.sent_patch h hp rfl (by rintro ⟨⟩)) fun _ s₁ w₁ h₁ => ?_
    refine Meets.mono (hK.save_rest h₁.toHand ?_) fun _ _ _ h => h.inv
    exact ⟨rfl,le_rfl,h₁.sure.firm,.ended rfl (.inr rfl) (.inl rfl) (.inr rfl) fun _ => .inl rfl⟩
  · refine Meets.bind (hK.sent_patch h hp rfl (by rintro ⟨⟩)) fun _ s₁ w₁ h₁ => ?_
    have he : K.Edit .open s₁ w₁ cur (bump { cur with
        status := .inPosition, openedAt := some s.now,
        filledAvgPrice := entry.avgPrice.orElse fun _ => s.markets t.symbol } s.now) :=
      ⟨rfl,le_rfl,h₁.sure.firm,.filled rfl rfl (.inr h₁.spent)⟩
    refine hK.save_bind h₁.toHand he (fun hend => ?_) fun h₂ => ?_
    · rcases hend with hend|hend <;> cases hend
    · have ha : ∀ l ∈ placed, K.again cur.id l.stop.1 _ w₁ := fun l hl =>
        hK.deed_again h₁.inv (.edit (p := p) h₁.copy he) (h₁.again l hl)
      exact Meets.bind (hK.placeProtection_keeps (hK.grip h₂) placed ha) fun _ _ _ h =>
        pollAccount_keeps hK h.inv
  · refine Meets.bind (hK.sent_patch h hp rfl (by rintro ⟨⟩)) fun _ s₁ w₁ h₁ => ?_
    exact hK.save_bind h₁.toHand (.note h₁.sure.firm rfl le_rfl rfl id) id fun h =>
      pollAccount_keeps hK h.inv

/-- The submit phase of the stored thread is over. -/
theorem sure_submitted (hi : K.inv s w) (hs : K.spent t.id s w) :
    K.Sure (((s.thread t.id).getD t).submitted s.now) s := by
  intro hw
  obtain ⟨u,hu,hn⟩ := hK.watch_spent hw hi hs
  rw [hu,Option.getD_some]
  refine fun hp => ⟨?_,fun ⟨_,_,since,hsince,_⟩ => by cases hsince⟩
  rw [StrategyThread.unsent,not_and] at hn
  exact Option.isSome_iff_ne_none.mpr (hn hp)

theorem submitEntry_keeps (h : K.Armed t cid i s w) (hp : p=.opening) {minted : StrategyThread}
    (hm : minted.plan=t.plan) (hst : minted.progress=t.progress) :
    K.Keeps p (submitEntry t minted cid i) (fun _ s w => K.inv s w) s w := by
  unfold submitEntry
  refine Meets.bind (hK.sendEntry_keeps h hp hm hst) fun x s₁ w₁ h₁ => ?_
  obtain ⟨entry,placed⟩ := x
  have hand : K.Hand ((s₁.thread t.id).getD t) Alone s₁ w₁ :=
    hK.hand_stored ⟨⟨h₁.inv,fun _ hv => hv.elim⟩,offThread_alone _,h₁.known,h₁.kin⟩
  have hid := id_getD_thread s₁ t
  have hfirm : K.Firm ((s₁.thread t.id).getD t) s₁ := .getD t
  have hsure := hK.sure_submitted h₁.inv h₁.spent
  have hspent := h₁.spent
  rw [← hid] at hspent
  simp only [storedOr,Prog.pure_eq,Prog.read_bind,Prog.get_bind,Prog.done_bind,Meets.get]
  generalize (s₁.thread t.id).getD t=c at hand hid hspent hfirm hsure
  have he : K.Edit .open s₁ w₁ c (c.submitted s₁.now) :=
    ⟨rfl,le_rfl,hfirm,.submitted rfl rfl hspent⟩
  refine hK.save_bind hand he id fun h₂ => ?_
  have hstored : (((s₁.saveThread (c.submitted s₁.now)).thread t.id).getD t)=c.submitted s₁.now := by
    rw [← hid]
    exact congrArg (fun o => o.getD t) (Runtime.thread_saveThread_self s₁ (c.submitted s₁.now))
  have hd : K.Deed p .open s₁ w₁ (s₁.saveThread (c.submitted s₁.now)) := .edit hand.copy he
  have h₃ : K.Sent (c.submitted s₁.now) i placed (s₁.saveThread (c.submitted s₁.now)) w₁ :=
    ⟨h₂,hK.deed_spent h₁.inv hd hspent,hK.deed_owned h₁.inv hd h₁.owned,
      fun l hl => hK.deed_again h₁.inv hd (by rw [show (c.submitted s₁.now).id=t.id from hid]; exact h₁.again l hl),
      hsure⟩
  simp only [Meets.get,hstored]
  exact Meets.bind (hK.confirmOutcome_keeps h₃ cid entry.outcome) fun outcome s₄ w₄ h₄ =>
    hK.settleEntry_keeps h₄ hp entry outcome

omit hK in
/-- A thread that does not wait for its entry any more is refused. -/
theorem executeOpen_refuses {threadIn : StrategyThread} {P : Unit → Runtime → ω → Prop}
    (ht : ¬((s.thread threadIn.id).getD threadIn).unsent) (h : K.inv s w) :
    K.Keeps p (executeOpen threadIn i) P s w := by
  simp only [executeOpen,storedOr,Prog.pure_eq,Prog.read_bind,Prog.get_bind,Prog.done_bind,Meets.get]
  rw [if_pos]
  · exact h
  · rw [StrategyThread.unsent,not_and_or] at ht
    rwa [← Option.ne_none_iff_isSome]

theorem executeOpen_keeps {threadIn : StrategyThread} (h : K.Hand threadIn Alone s w)
    (ho : K.owned i s w) (hpair : K.pairs i threadIn.id s w) (hp : p=.opening) :
    K.Keeps p (executeOpen threadIn i) (fun _ s w => K.inv s w) s w := by
  have hand := hK.hand_stored (hK.grip h)
  have hfresh : ∀ v ∈ s.thread ((s.thread threadIn.id).getD threadIn).id,
      v=(s.thread threadIn.id).getD threadIn := fun v hv => by
    rw [id_getD_thread] at hv
    rw [hv,Option.getD_some]
  rw [← id_getD_thread s threadIn] at hpair
  simp only [executeOpen,storedOr,Prog.pure_eq,Prog.read_bind,Prog.get_bind,Prog.done_bind,Meets.get]
  generalize (s.thread threadIn.id).getD threadIn=t at hand hpair hfresh
  split
  · exact h.inv
  · next hguard =>
    rw [not_or,not_not,Bool.not_eq_true,Option.isSome_eq_false_iff,Option.isNone_iff_eq_none] at hguard
    have hm : Minting s t ((nextLegCid t .e).2.submitting (nextLegCid t .e).1 (t.version+1) s.now) :=
      ⟨hguard,rfl,rfl,rfl,rfl⟩
    obtain ⟨hinv,hknown,hkin,hticket,hspent,howned⟩ := hK.mint hp hand.inv hand.copy ho hpair hm
      (j := { i with status := .approved, clientOrderId := some (nextLegCid t .e).1 }) rfl rfl rfl
    simp only [saveThread,updateIntent,Prog.update_bind,Prog.get_bind,Prog.put_bind,
      Prog.pure_eq,Prog.done_bind,Meets.get,Meets.put]
    refine ⟨.takes t _ hp rfl hand.inv hand.copy hfresh hm rfl,
      .approves s t _ i { i with status := .approved, clientOrderId := some (nextLegCid t .e).1 } hp
        hand.inv hand.copy ho hpair hm rfl rfl rfl rfl rfl,?_⟩
    have h₁ : K.Armed t (nextLegCid t .e).1
        { i with status := .approved, clientOrderId := some (nextLegCid t .e).1 } _ w :=
      ⟨hinv,hknown,hkin,hticket,hspent,howned⟩
    refine Meets.bind (hK.openingRefusal_keeps h₁ hp _) fun r s₂ w₂ h₂ => ?_
    cases r with
    | some why => exact hK.abortOpen_keeps h₂ hp why
    | none => exact hK.submitEntry_keeps h₂ hp rfl rfl

/-! New threads. -/

/-- An adopted thread is stored and is in hand. -/
theorem create_bind {α : Type} {P : α → Runtime → ω → Prop} {l : Writer} {k : Unit → RT α}
    (h : K.inv s w) (hc : Adopted s t) (haims : K.aims t.plan)
    (hk : K.Hand t Alone (s.saveThread t) w → K.Keeps p (k ()) P (s.saveThread t) w) :
    K.Keeps p (saveThread l t >>= k) P s w := by
  have hd : K.Deed p l s w (s.saveThread t) :=
    ⟨.create t hc rfl,.same rfl,rfl,.inl rfl,.inl rfl,.same rfl rfl⟩
  exact ⟨.deed h hd,hk ⟨⟨hK.deed_inv h hd,fun _ hv => hv.elim⟩,offThread_alone _,hK.deed_create h hc haims⟩⟩

omit hK in
/-- The opening intent of a thread is drawn where the thread is stored. -/
theorem draws_newIntent {principal : Principal} {d : IntentDraft} (hkind : d.kind=.open)
    (hd : DrawnFor ((s.saveThread t).newIntent t principal d).1 t) :
    Draws s t ((s.saveThread t).newIntent t principal d).1 ((s.saveThread t).newIntent t principal d).2 := by
  obtain ⟨hi,hn,hb,hh⟩ := newIntent_fields (s.saveThread t) t principal d
  obtain ⟨hacc,hday⟩ := newIntent_books (s.saveThread t) t principal d
  exact ⟨(s.saveThread t).intent_freshIntentId,hkind,rfl,rfl,hd,newIntent_recorded _ t principal d (Runtime.thread_saveThread_self s t),
    hi,hn,hb,hh,hacc,hday⟩

/-- A thread that waits for its entry is stored, and its opening intent. -/
theorem propose_bind {α : Type} {P : α → Runtime → ω → Prop} {principal : Principal} {d : IntentDraft}
    {k : DemoIntent → RT α} (h : K.inv s w) (hp : p=.opening) (hc : Proposed s t) (haims : K.aims t.plan) (hkind : d.kind=.open)
    (hdrawn : DrawnFor ((s.saveThread t).newIntent t principal d).1 t)
    (hk : ∀ i s w, K.Hand t Alone s w → K.Firm t s → K.owned i s w → K.pairs i t.id s w →
      K.Keeps p (k i) P s w) :
    K.Keeps p (saveThread .propose t >>= fun _ => newIntent t principal d >>= k) P s w := by
  have hd := draws_newIntent hkind hdrawn
  obtain ⟨hinv,hheld,howned,hpairs⟩ := hK.propose hp h hc haims hd
  have hf : K.Firm t ((s.saveThread t).newIntent t principal d).2 := (Firm.saved t).quiet
    (newIntent_quiet (s.saveThread t) t principal d t.id) hd.now
  exact ⟨.proposes t hp h hc rfl,.draws s t _ hp h hc rfl hd,
    hk _ _ _ ⟨⟨hinv,fun _ hv => hv.elim⟩,offThread_alone _,hheld⟩ hf howned hpairs⟩

theorem openThreadFromProposal_keeps (h : K.inv s w) (hp : p=.opening) (symbol : String)
    (pr : Proposal) (takeProfits : List String) (staleMark : String) (source : ThreadSource)
    (forceApproval : Bool) (haims : ∀ x, x.symbol=symbol → K.aims x) : K.Keeps p
      (openThreadFromProposal symbol pr takeProfits staleMark source forceApproval)
      (fun _ s w => K.inv s w) s w := by
  simp only [openThreadFromProposal,Meets.request_bind]
  refine ⟨⟨h,.asks trivial⟩,fun r s₁ w₁ hb => ?_⟩
  have h₁ := hK.back_inv h hb
  cases r with
  | error e => exact h₁
  | ok rules =>
    simp only [orThrow,Prog.done_bind,Meets.request_bind]
    refine ⟨⟨h₁,.asks trivial⟩,fun r s₂ w₂ hb => ?_⟩
    have h₂ := hK.back_inv h₁ hb
    cases r with
    | error e => exact h₂
    | ok account =>
      have h₂' := hK.deed_inv h₂ (Deed.setAccount (p := p) (w := w₂) account)
      simp only [Prog.done_bind,Meets.update_bind,Meets.read_bind,Meets.request_bind]
      refine ⟨.deed h₂ (Deed.setAccount account),⟨h₂',.asks trivial⟩,fun m s₃ w₃ hb => ?_⟩
      have h₃ := hK.back_inv h₂' hb
      split
      · exact h₃
      · next hblock =>
        rw [not_not] at hblock
        generalize computeSizing _ _ _ _ _ _ _ _=sizing
        refine hK.propose_bind h₃ hp ⟨s₃.thread_freshThreadId,rfl,rfl,rfl,rfl,alone_of_preflightOpen hblock⟩
          (haims _ rfl) rfl ⟨rfl,rfl,rfl,rfl,rfl,rfl,rfl⟩ ?_
        intro i s₅ w₅ h₅ hf ho hpair
        split
        · have hd : K.Deed p .intent s₅ w₅ (s₅.saveIntent { i with
              status := .rejected, error := some ("数量不可用:" ++ sizing.note) }) :=
            .patch ho rfl (fun _ => .inl hp) (by rintro ⟨⟩)
          refine ⟨.deed h₅.inv hd,?_⟩
          refine Meets.mono (hK.save_rest (hK.hand_of_deed h₅ hd (.of_threads rfl)) ?_) fun _ _ _ h => h.inv
          exact ⟨rfl,le_rfl,hf,.ended rfl (.inr rfl) (.inl rfl) (.inr rfl) fun _ => .inr (.inl rfl)⟩
        · split
          · exact h₅.inv
          · exact hK.executeOpen_keeps h₅ ho hpair hp

theorem applyProposal_keeps (h : K.inv s w) (hp : p=.opening) (symbol : String) (at_ : ℕ)
    (pr : Proposal) (takeProfits : List String) (staleMark : String) (gatesPassed : Bool)
    (haims : ∀ x, x.symbol=symbol → K.aims x) :
    K.Keeps p (applyProposal symbol at_ pr takeProfits staleMark gatesPassed)
      (fun _ s w => K.inv s w) s w := by
  simp only [applyProposal,Meets.read_bind]
  split
  · exact hK.openThreadFromProposal_keeps h hp _ _ _ _ _ _ haims
  · exact h

theorem submitManual_keeps (h : K.inv s w) (hp : p=.opening) (req : ManualOrderRequest)
    (leverage : ℤ) (ref qty : ℚ) (rules : SymbolRules) (account : AccountView)
    (haims : ∀ x, x.symbol=req.symbol → K.aims x) :
    K.Keeps p (submitManual req leverage ref qty rules account) (fun _ s w => K.inv s w) s w := by
  unfold submitManual
  extract_lets maxNotional
  split
  · exact h
  · simp only [Meets.read_bind]
    split
    · exact h
    · next hblock =>
      rw [not_not] at hblock
      rename_i text _
      refine hK.propose_bind h hp ⟨s.thread_freshThreadId,rfl,rfl,rfl,rfl,alone_of_preflightOpen hblock⟩
        (haims _ rfl) rfl ⟨rfl,rfl,rfl,rfl,rfl,?_,rfl⟩ ?_
      · show (if req.type=.limit then req.price else none)=
          if req.type=.limit then (if req.type=.limit then req.price else none) else none
        split <;> rfl
      · exact fun i s₂ w₂ h₂ _ ho hpair => hK.executeOpen_keeps h₂ ho hpair hp

theorem knownAccount_keeps (h : K.inv s w) :
    K.Keeps p knownAccount (fun _ s w => K.inv s w) s w := by
  simp only [knownAccount,Meets.read_bind]
  split
  · exact h
  · refine ⟨⟨h,.asks trivial⟩,fun r s₁ w₁ hb => ?_⟩
    cases r <;> exact hK.back_inv h hb

theorem knownMark_keeps (h : K.inv s w) (symbol : String) :
    K.Keeps p (knownMark symbol) (fun _ s w => K.inv s w) s w := by
  simp only [knownMark,Meets.read_bind]
  split
  · exact h
  · refine ⟨⟨h,.asks trivial⟩,fun r s₁ w₁ hb => ?_⟩
    cases r <;> exact hK.back_inv h hb

theorem manualOpen_keeps (h : K.inv s w) (hp : p=.opening) (req : ManualOrderRequest)
    (mark : String) (haims : ∀ x, x.symbol=req.symbol → K.aims x) : K.Keeps p (manualOpen req mark) (fun _ s w => K.inv s w) s w := by
  simp only [manualOpen,Meets.read_bind]
  split
  · exact h
  · split
    · exact h
    · simp only [Meets.request_bind]
      refine ⟨⟨h,.asks trivial⟩,fun r s₁ w₁ hb => ?_⟩
      have h₁ := hK.back_inv h hb
      cases r with
      | error e => exact h₁
      | ok rules =>
        simp only [orThrow,Prog.done_bind]
        split
        · exact h₁
        · exact Meets.bind (hK.knownAccount_keeps h₁) fun a s w h => hK.submitManual_keeps h hp _ _ _ _ _ _ haims

end Laws
end Custody
end TradeGate
