import TradeGate.Custody.Passes

/-! One pass of the account poll, as deeds of a custody. -/
namespace TradeGate
open Coop Contract

variable {ω : Type} {K : Custody ω} {s : Runtime} {w : ω} {p : Power} {t u : StrategyThread}
  {G : StrategyThread → Prop}

theorem withPaperClose_parts (t : StrategyThread) (ev : Option PaperEvent) :
    (withPaperClose t ev).plan=t.plan ∧ (withPaperClose t ev).progress=t.progress ∧
      (withPaperClose t ev).attention=t.attention ∧ (withPaperClose t ev).legSeq=t.legSeq := by
  cases ev with
  | none => exact ⟨rfl,rfl,rfl,rfl⟩
  | some ev =>
    unfold withPaperClose
    dsimp only
    split <;> exact ⟨rfl,rfl,rfl,rfl⟩

/-- Nothing is found out about an entry that was never sent. -/
theorem reconcileThread_unsent (hu : t.unsent) {f : ThreadFacts} (hf : f.entryOrder=.unqueried) :
    reconcileThread t f=unchanged t := by
  unfold reconcileThread
  rw [hu.1]
  unfold reconcilePending
  simp only [hf,EntryLookup.order,Option.filter_none,hu.2]
  cases f.position <;> simp

namespace Custody

/-- What a pass finds out about a thread is an edit of it. -/
theorem Edit.judged {f : ThreadFacts} {r : ReconcileResult} (h : Judged t f r)
    (hf : t.entryClientOrderId.isSome ∨ f.entryOrder=.unqueried) (hs : K.Sure t s) :
    K.Edit .reconcile s w t r.next := by
  have hn : K.watch → Writer.reconcile=.open ∨ Writer.reconcile=.propose ∨ Writer.reconcile=.halt ∨
      ¬t.inFlight s.now := fun hw => .inr (.inr (.inr (hs hw).not_inFlight))
  cases h with
  | same => exact .same hs.firm
  | filled order position hst hq =>
    exact ⟨rfl,le_rfl,hs.firm,.filled rfl rfl (.inl (hf.resolve_right hq))⟩
  | canceled reason hst => exact ⟨rfl,le_rfl,hs.firm,.ended rfl (.inr rfl) (.inl rfl) (.inl rfl) hn⟩
  | closed reason hst hp => exact ⟨rfl,le_rfl,hs.firm,.ended rfl (.inl rfl) (.inl rfl) (.inl rfl) hn⟩
  | noted a misses evs ha hev => exact .note hs.firm rfl le_rfl rfl fun h => (ha h).trans h

/-- What an edit is depends on plan, progress, flag and legs only. -/
theorem Edit.congr {l : Writer} {v : StrategyThread} (h : K.Edit l s w t u) (plan : v.plan=u.plan)
    (progress : v.progress=u.progress) (flag : v.attention=u.attention) (legs : v.legSeq=u.legSeq) :
    K.Edit l s w t v := by
  refine ⟨plan.trans h.plan,h.legs.trans_eq legs.symm,h.firm,?_⟩
  have hst : v.status=u.status := congrArg Progress.status progress
  have hop : v.openedAt=u.openedAt := congrArg Progress.openedAt progress
  have hq : v.qty=u.qty := congrArg Progress.qty progress
  have hc : v.entryClientOrderId=u.entryClientOrderId :=
    congrArg Progress.entryClientOrderId progress
  cases h.change with
  | noted hp ha => exact .noted (progress.trans hp) fun h => ha (flag ▸ h)
  | resized hp ha why => exact .resized (by rw [progress,hp,hq]) (by rw [flag]; exact ha) why
  | filled hp ho why => exact .filled (by rw [progress,hp,hop,hq]) (by rw [hop]; exact ho) why
  | submitted hp ha why => exact .submitted (progress.trans hp) (flag.trans ha) why
  | ended hp he hcid ha sure =>
    refine .ended (by rw [progress,hp,hst,hc]) ?_ (by rw [hc]; exact hcid) (by rw [flag]; exact ha) sure
    unfold StrategyThread.ended
    rw [hst]
    exact he

variable [Host]

namespace Laws

variable (hK : K.Laws p)
include hK

/-- The stored thread in place of a copy. -/
theorem hand_thread (h : K.Grip t G s w) (hu : s.thread t.id=some u) : K.Hand u G s w := by
  have h' := hK.hand_stored h
  rwa [hu,Option.getD_some] at h'

theorem flattenHeld_keeps (h : K.Hand t G s w) (hs : K.Sure t s) (held : Bool) :
    K.Keeps p (flattenHeld t held) (fun _ s w => K.Grip t G s w ∧ K.Sure t s) s w := by
  unfold flattenHeld
  split
  · refine hK.mint_bind .x h hs.firm fun h' hl => ?_
    refine ⟨⟨h'.inv,.serves _ (hK.kin h') rfl (List.forall_mem_singleton.mpr hl)⟩,fun r s₁ w₁ hb => ?_⟩
    exact ⟨hK.grip_back (hK.grip_edit h (.mint (l := .retryHalt) hs.firm .x) id) hb,
      hK.sure_back h'.inv hs hb⟩
  · exact ⟨hK.grip h,hs⟩

theorem retryHalt_keeps (h : K.Hand t G s w) (hs : K.Sure t s) (held : Bool) :
    K.Keeps p (retryHalt t held) (K.Rest G) s w := by
  unfold retryHalt
  refine hK.ask_bind h (.serves t (hK.kin h) rfl nofun) fun c s₁ w₁ hb h₁ => ?_
  refine Meets.bind (hK.flattenHeld_keeps h₁ (hK.sure_back h.inv hs hb) held) ?_
  rintro closed s₂ w₂ ⟨h₂,hs₂⟩
  split
  · simp only [Meets.request_bind]
    refine ⟨⟨h₂.inv,.asks trivial⟩,fun r s₃ w₃ hb => ?_⟩
    have h₃ := hK.grip_back h₂ hb
    have hs₃ := hK.sure_stored h₃ (hK.sure_back h₂.inv hs₂ hb)
    cases r with
    | error e => exact h₃.inv
    | ok fresh =>
      simp only [orThrow,Prog.done_bind]
      split
      · refine hK.save_rest (hK.hand_stored h₃) ⟨rfl,le_rfl,hs₃.firm,.ended rfl ?_ (.inl rfl) (.inl rfl)
          fun hw => .inr (.inr (.inr (hs₃ hw).not_inFlight))⟩
        show t.endStatus=_ ∨ t.endStatus=_
        unfold StrategyThread.endStatus
        split
        · exact .inr rfl
        · exact .inl rfl
      · exact h₃.toHas
  · exact h₂.toHas

theorem settleRemainder_keeps (h : K.Grip t G s w) (rem : Option OrderStatusView) :
    K.Keeps p (settleRemainder t rem) (K.Rest G) s w := by
  simp only [settleRemainder,Meets.read_bind]
  split
  · exact h.toHas
  · next cur hcur =>
    obtain ⟨hc,ha⟩ := Option.filter_eq_some_iff.mp hcur
    have hf : K.Firm cur s := .stored (by rw [Runtime.id_of_thread hc]; exact hc)
    exact hK.save_rest (hK.hand_thread h hc)
      ⟨rfl,le_rfl,hf,.resized rfl (.inl (by simp)) (.inl (of_decide_eq_true ha))⟩

theorem finishRemainder_keeps {cid : String} (h : K.Hand t G s w)
    (hcid : t.entryClientOrderId=some cid) :
    K.Keeps p (finishRemainder t cid) (K.Rest G) s w := by
  unfold finishRemainder
  simp only [Meets.request_bind]
  refine ⟨⟨h.inv,.asks trivial⟩,fun r s₁ w₁ hb => ?_⟩
  have h₁ := hK.hand_back h hb
  split
  · split
    · exact hK.settleRemainder_keeps (hK.grip h₁) _
    · refine hK.ask_bind h₁ (.serves t (hK.kin h₁) ⟨rfl,hcid⟩ (by rintro _ ⟨⟩)) fun c s₂ w₂ _ h₂ => ?_
      split
      · exact hK.settleRemainder_keeps (hK.grip h₂) _
      · exact h₂.toHas
  · exact hK.settleRemainder_keeps (hK.grip h₁) _

theorem cancelRemainder_keeps (h : K.Hand t G s w) (hs : K.Sure t s) :
    K.Keeps p (cancelRemainder t) (fun _ s w => K.Grip t G s w) s w := by
  unfold cancelRemainder
  split
  · next cid ha hcid =>
    refine hK.ask_bind h (.serves t (hK.kin h) ⟨rfl,hcid⟩ (by rintro _ ⟨⟩)) fun c s₁ w₁ hb h₁ => ?_
    simp only [Meets.read_bind]
    refine Meets.onlyIf (fun _ => ?_) fun _ => hK.grip h₁
    have he : K.Edit .reconcile s₁ w₁ t (t.flag none s₁.now) :=
      .flag (hK.sure_back h.inv hs hb).firm (by rintro ⟨⟩) _
    exact ⟨.deed h₁.inv (.edit h₁.copy he),hK.grip_edit h₁ he id⟩
  · exact hK.grip h

/-- Between the parts of `followUp`: under `d` requests for the thread may be sent, and under `c` the
copy can still be stored. -/
structure Poised (K : Custody ω) (c d : Prop) (t : StrategyThread) (G : StrategyThread → Prop)
    (s : Runtime) (w : ω) : Prop extends K.Has G s w where
  kin : d → K.kin t s w
  hand : c → K.Hand t G s w

theorem poised_of_deed {c d : Prop} {l : Writer} {s' : Runtime} (h : Poised K c d t G s w)
    (hd : K.Deed p l s w s') (hq : ∀ id, Quiet id s s') : Poised K c d t G s' w :=
  ⟨hK.has_of_deed h.toHas hd fun v _ => hq v.id,
    fun hk => hK.deed_kin h.inv hd (h.kin hk),fun hc => hK.hand_of_deed (h.hand hc) hd hq⟩

theorem poised_back {c d : Prop} {q : Call} {r : Answer q} {s' : Runtime} {w' : ω}
    (h : Poised K c d t G s w) (hb : K.back s w q r s' w') : Poised K c d t G s' w' :=
  ⟨hK.has_back h.toHas hb,fun hd => hK.back_kin h.inv hb (h.kin hd),
    fun hc => hK.hand_back (h.hand hc) hb⟩

theorem resolve_poised {c d : Prop} (h : Poised K c d t G s w) {fallback : IntentStatus}
    (hf : fallback.certain) :
    K.Keeps p (Prog.update .intent (·.resolveOpenIntents t fallback) : RT Unit)
      (fun _ s w => Poised K c d t G s w) s w :=
  ⟨.deed h.inv (.resolveOpen hf),hK.poised_of_deed (l := .intent) (p := p) h (.resolveOpen hf)
    (.of_threads (Runtime.threads_resolveOpenIntents _ _ _))⟩

theorem followUp_keeps {events : List EventKind} (entryOrder : EntryLookup) (h : K.Has G s w)
    (hkin : K.kin t s w) (hhand : t.status=.inPosition → K.Hand t G s w)
    (hf : .entryFilled ∈ events → t.status=.inPosition ∧ t.attention ≠ some .protectionMissing) :
    K.Keeps p (followUp t events entryOrder) (K.Rest G) s w := by
  have h₀ : Poised K (t.status=.inPosition) True t G s w := ⟨h,fun _ => hkin,hhand⟩
  unfold followUp
  refine Meets.bind (M := fun _ s w => Poised K (t.status=.inPosition) True t G s w) (Meets.onlyIf
    (fun _ => ⟨.deed h.inv .resolveUnknown,hK.poised_of_deed (l := .intent) (p := p) h₀ .resolveUnknown
      (.of_threads (Runtime.threads_resolveUnknownIntents _ _ _))⟩) fun _ => h₀) ?_
  intro _ s₁ w₁ h₁
  -- a fill may use the copy up; then status and flag rule the other parts out
  refine Meets.bind (M := fun _ s w => Poised K (.entryFilled ∉ events ∧ t.status=.inPosition)
    (.entryFilled ∉ events) t G s w) ?_ ?_
  · refine Meets.onlyIf (fun hfill => ?_) fun _ => ⟨h₁.toHas,fun _ => h₁.kin trivial,fun hc => h₁.hand hc.2⟩
    refine Meets.bind (hK.cancelRemainder_keeps (h₁.hand (hf hfill).1)
      (.of_status (by rw [(hf hfill).1]; rintro ⟨⟩))) fun _ s₂ w₂ h₂ => ?_
    exact (hK.placeProtection_keeps h₂ none (by rintro _ ⟨⟩)).mono fun _ s w h =>
      ⟨h,fun hn => absurd hfill hn,fun hc => absurd hfill hc.1⟩
  intro _ s₂ w₂ h₂
  refine Meets.bind (M := fun _ s w => Poised K (.entryFilled ∉ events ∧ t.status=.inPosition)
    (.entryFilled ∉ events) t G s w) ?_ ?_
  · refine Meets.onlyIf (fun hc => ?_) fun _ => h₂
    have hn : .entryFilled ∉ events := fun hfill => by
      have := (hf hfill).1
      rw [hc] at this
      cases this
    simp only [Meets.request_bind]
    refine ⟨⟨h₂.inv,.serves t (h₂.kin hn) rfl (by rintro _ ⟨⟩)⟩,fun r s₃ w₃ hb => ?_⟩
    exact hK.resolve_poised (hK.poised_back h₂ hb) certain_filled
  intro _ s₃ w₃ h₃
  refine Meets.bind (Meets.onlyIf (fun _ => hK.resolve_poised h₃ certain_failed) fun _ => h₃) ?_
  intro _ s₄ w₄ h₄
  refine Meets.onlyIf (fun ha => ?_) fun _ => h₄.toHas
  by_cases hin : t.status=.inPosition
  · exact hK.placeProtection_keeps (hK.grip (h₄.hand ⟨fun hfill => (hf hfill).2 ha,hin⟩)) none (by rintro _ ⟨⟩)
  · simp only [placeProtection,Meets.read_bind,ne_eq,hin,not_false_eq_true,true_or,if_true]
    exact h₄.toHas

theorem judge_keeps (h : K.Hand t G s w) (hs : K.Sure t s) (position : Option PositionView)
    (openOrders : List OpenOrderView) (paperEvents : List PaperEvent) (entryOrder : EntryLookup)
    (hf : t.entryClientOrderId.isSome ∨ entryOrder=.unqueried) :
    K.Keeps p (judge t position openOrders paperEvents entryOrder) (K.Rest G) s w := by
  have hj := reconcileThread_judged t ⟨s.now,position,entryOrder,openOrders⟩
  simp only [judge,Meets.read_bind]
  refine Meets.onlyIf (fun _ => ?_) fun _ => h.toHas
  generalize reconcileThread t ⟨s.now,position,entryOrder,openOrders⟩=r at hj
  obtain ⟨hplan,hprog,hatt,hlegs⟩ := withPaperClose_parts r.next
    (paperEvents.find? fun e => e.symbol=t.symbol ∧ (e.kind=.slHit ∨ e.kind=.tpHit))
  have he := (Edit.judged (w := w) hj hf hs).congr hplan hprog hatt hlegs
  generalize withPaperClose r.next _=next at hplan hprog hatt hlegs he
  refine hK.end_bind h he fun h' => hK.followUp_keeps _ h' ?_ (fun hin => ?_) ?_
  · exact hK.kin_plan he.plan (hK.deed_kin h.inv (.edit (p := p) h.copy he) (hK.kin h))
  · refine hK.hand_edit h he fun hend => ?_
    rcases hend with hend|hend <;> rw [hin] at hend <;> cases hend
  · rw [hatt,show next.status=r.next.status from congrArg Progress.status hprog]
    exact hj.entryFilled

theorem reconcileOne_keeps (h : K.Hand t G s w) (hcalm : s.halted=true → K.Sure t s)
    (acct : AccountView) (paperEvents : List PaperEvent) :
    K.Keeps p (reconcileOne acct paperEvents t) (K.Rest G) s w := by
  simp only [reconcileOne,Meets.read_bind]
  split
  · next hh =>
    split
    · exact hK.retryHalt_keeps h (hcalm hh) _
    · exact h.toHas
  · split
    · next hc =>
      by_cases hst : t.status=.pendingEntry
      · simp only [judge,Meets.read_bind]
        rw [reconcileThread_unsent ⟨hst,hc⟩ rfl]
        exact h.toHas
      · exact hK.judge_keeps h (.of_status hst) _ _ _ _ (.inr rfl)
    · next cid hc =>
      have hsome : t.entryClientOrderId.isSome := by rw [hc]; rfl
      split_ifs with ha hst hsince
      · exact hK.finishRemainder_keeps h hc
      · exact hK.judge_keeps h (.of_status hst) _ _ _ _ (.inr rfl)
      · exact h.toHas
      · refine hK.ask_bind h (.asks trivial) fun r s₁ w₁ hb h₁ => ?_
        have hs : K.Sure t s₁ :=
          hK.sure_back h.inv (fun _ _ => ⟨hsome,fun hf => hsince hf.2.2⟩) hb
        cases r with
        | error e => exact h₁.toHas
        | ok order => exact hK.judge_keeps h₁ hs _ _ _ _ (.inl hsome)

omit hK in
/-- A list of threads to go through. -/
theorem forM_keeps {f : StrategyThread → RT Unit} {ts : List StrategyThread}
    (hf : ∀ t G s w, K.Hand t G s w → K.Keeps p (f t) (K.Rest G) s w)
    (hnd : (ts.map StrategyThread.id).Nodup) (h : K.Has (· ∈ ts) s w) :
    K.Keeps p (ts.forM f) (fun _ s w => K.inv s w) s w := by
  refine (Meets.forM (I := fun ts s w => (ts.map StrategyThread.id).Nodup ∧ K.Has (· ∈ ts) s w)
    ⟨hnd,h⟩ ?_).mono fun _ _ _ h => h.2.inv
  intro t ts s w ⟨hnd,h⟩
  rw [List.map_cons,List.nodup_cons] at hnd
  have hand : K.Hand t (· ∈ ts) s w :=
    ⟨⟨h.inv,fun v hv => h.held v (List.mem_cons_of_mem _ hv)⟩,
      fun v hv hid => hnd.1 (hid ▸ List.mem_map_of_mem hv),h.held t List.mem_cons_self⟩
  exact (hf t _ s w hand).mono fun _ _ _ h => ⟨hnd.2,h⟩

theorem reconcileThreads_keeps (h : K.inv s w) (haims : ∀ x, K.aims x)
    (hcalm : ∀ t s w, K.inv s w → K.held t s w → s.halted=true → K.Sure t s) (acct : AccountView) :
    K.Keeps p (reconcileThreads acct) (fun _ s w => K.inv s w) s w := by
  have hd : K.Deed p .account s w s.takePaperEvents :=
    .aside rfl rfl rfl (.inl rfl) (.inl rfl) (.same rfl rfl)
  have h' := hK.deed_inv h hd
  simp only [reconcileThreads,Meets.read_bind,Meets.update_bind]
  exact ⟨.deed h hd,forM_keeps (fun t G s w h => hK.reconcileOne_keeps h (hcalm t s w h.inv h.copy) _ _)
    s.takePaperEvents.openThreads_nodup ⟨h',fun v hv => hK.listed h' hv (haims v.plan)⟩⟩

omit [Host] hK in
theorem Deed.setAccount (a : AccountView) : K.Deed p .account s w (s.setAccount a) :=
  .aside rfl rfl rfl (.inl rfl) (.inl rfl) (.read a rfl)

omit [Host] hK in
theorem trackDailyEquity_only (s : Runtime) (a : AccountView) :
    ∃ d, s.trackDailyEquity a={ s with dayStartEquity := d } := by
  unfold Runtime.trackDailyEquity
  split
  · exact ⟨_,rfl⟩
  · dsimp only
    split_ifs <;> exact ⟨_,rfl⟩

theorem pollAccountInner_keeps (h : K.inv s w) (haims : ∀ x, K.aims x)
    (hcalm : ∀ t s w, K.inv s w → K.held t s w → s.halted=true → K.Sure t s) :
    K.Keeps p pollAccountInner (fun _ s w => K.inv s w) s w := by
  simp only [pollAccountInner,Meets.request_bind]
  refine ⟨⟨h,.asks trivial⟩,fun r s₁ w₁ hb => ?_⟩
  have h₁ := hK.back_inv h hb
  cases r with
  | error e => exact h₁
  | ok acct =>
    obtain ⟨d,hdse⟩ := trackDailyEquity_only (s₁.setAccount acct) acct
    have hd : K.Deed p .account s₁ w₁ ((s₁.setAccount acct).trackDailyEquity acct) := by
      rw [hdse]
      exact .aside rfl rfl rfl (.inl rfl) (.inl rfl) (.track acct hdse.symm)
    simp only [orThrow,Prog.done_bind,Meets.update_bind]
    exact ⟨.deed h₁ hd,hK.reconcileThreads_keeps (hK.deed_inv h₁ hd) haims hcalm acct⟩

end Laws
end Custody
end TradeGate
