import TradeGate.Execd.Policy
import TradeGate.Execd.Rows
import TradeGate.Execd.Wire

/-! Proposals under one idempotency key. -/
namespace TradeGate.Execd
open Js Threads Machine

/-- No row has the key of the proposal. -/
def keyFree (p : IntentProposeParams) (s : App) : Bool :=
  p.idempotencyKey.all fun key => !s.db.intents.any (Store.hasKey p.principal key)

/-- A proposal that found its key free counts on it until it inserts. -/
def keyCare : Care App Access where
  keeps l s s' := match l with
    | .insertIntent p _ => keyFree p s=true → keyFree p s'=true
    | _ => True
  refl l s := by cases l <;> first | trivial | exact id
  trans l s s' s'' h h' := by
    cases l <;> first | trivial | exact fun hs => h' (h hs)

instance : (l : Access) → (s s' : App) → Decidable (keyCare.keeps l s s')
  | .insertIntent p _, s, s' => inferInstanceAs (Decidable (keyFree p s=true → keyFree p s'=true))
  | .loadPolicy _, _, _ | .setPolicy _ _, _, _ | .findIntent _ _, _, _ => .isTrue trivial
  | .reportCorruption _ _, _, _ | .getIntent _, _, _ | .rejectIntent _ _, _, _ => .isTrue trivial
  | .publish _, _, _ | .answer _ _, _, _ => .isTrue trivial

/-- The row has the account, the surface and the canonical parameters of the proposal. -/
def SameContent (i : Intent) (p : IntentProposeParams) : Prop :=
  i.account=p.account ∧ i.surface=p.surface ∧ canonicalJsonOf i.params=canonicalJsonOf p.params

instance (i : Intent) (p : IntentProposeParams) : Decidable (SameContent i p) :=
  inferInstanceAs (Decidable (_ ∧ _ ∧ _))

/-- What a proposal that found the row of its key returns. -/
def Returns (p : IntentProposeParams) (key : String) (i : Intent) (reply : Except RpcError Reply)
    (s : App) : Prop :=
  if SameContent i p then ∃ r gs, reply=.ok (.proposed r gs) ∧ r.intentId=i.intentId
  else (∃ e, reply=.error e ∧ e.kind=.conflict) ∧
    ∃ n now, { corruptionEvent p i key now with seq := n } ∈ s.db.events

/-- The key has one row, and the answer is as the content of the row says. -/
def Settled (p : IntentProposeParams) (key : String) (reply : Except RpcError Reply) (s : App) : Prop :=
  ∃ i ∈ s.db.intents, Store.hasKey p.principal key i=true ∧
    (∀ j ∈ s.db.intents, Store.hasKey p.principal key j=true → j=i) ∧ Returns p key i reply s

theorem sameContent_ok {i : Intent} {p : IntentProposeParams} {b : Bool} (h : sameContent i p=.ok b) :
    b=true ↔ SameContent i p := by
  obtain ⟨x,hx⟩ := Option.isSome_iff_exists.mp (canonicalJsonOf_isSome i.params)
  obtain ⟨y,hy⟩ := Option.isSome_iff_exists.mp (canonicalJsonOf_isSome p.params)
  unfold sameContent at h
  unfold SameContent
  by_cases hc : i.account=p.account ∧ i.surface=p.surface
  · rw [if_pos hc,hx,hy] at h
    cases h
    rw [hx,hy]
    simp [hc.1,hc.2]
  · rw [if_neg hc] at h
    cases h
    simp only [Bool.false_eq_true,false_iff]
    exact fun h => hc ⟨h.1,h.2.1⟩

/-- The parameters always have a canonical JSON to compare. -/
theorem sameContent_isOk (i : Intent) (p : IntentProposeParams) (e : RpcError) :
    sameContent i p ≠ .error e := by
  obtain ⟨x,hx⟩ := Option.isSome_iff_exists.mp (canonicalJsonOf_isSome i.params)
  obtain ⟨y,hy⟩ := Option.isSome_iff_exists.mp (canonicalJsonOf_isSome p.params)
  unfold sameContent
  rw [hx,hy]
  split <;> nofun

/-- What the gate makes of a proposal is in the table. -/
theorem gate_next (p : IntentProposeParams) (policy : ExecPolicy) :
    ∀ x ∈ (gate p policy).2, IntentStatus.proposed.canTransitionTo x.1=true := by
  unfold gate
  split
  · rintro x ⟨⟩
    decide
  · split
    · rintro x ⟨⟩
      decide
    · nofun

theorem SameProposal.sameContent {i j : Intent} (h : SameProposal i j) (p : IntentProposeParams) :
    SameContent j p ↔ SameContent i p := by
  unfold SameContent
  rw [h.account,h.surface,h.params]

theorem SameProposal.corruptionEvent {i j : Intent} (h : SameProposal i j) (p : IntentProposeParams)
    (key : String) (now : ℤ) : Execd.corruptionEvent p j key now=Execd.corruptionEvent p i key now := by
  unfold Execd.corruptionEvent
  rw [h.intentId,h.params]

theorem Returns.mono {p : IntentProposeParams} {key : String} {i j : Intent}
    {reply : Except RpcError Reply} {s s' : App} (h : Returns p key i reply s)
    (hij : SameProposal i j) (he : s.db.events <+: s'.db.events) : Returns p key j reply s' := by
  unfold Returns at h ⊢
  by_cases hc : SameContent i p
  · rw [if_pos hc] at h
    rw [if_pos ((hij.sameContent p).mpr hc),hij.intentId]
    exact h
  · rw [if_neg hc] at h
    rw [if_neg (mt (hij.sameContent p).mp hc)]
    obtain ⟨herr,n,now,hev⟩ := h
    exact ⟨herr,n,now,by rw [hij.corruptionEvent]; exact he.subset hev⟩

/-- How the proposals are answered. -/
def replies (ls : List Access) : List (IntentProposeParams × Except RpcError Reply) :=
  ls.filterMap fun l => match l with
    | .answer (.propose p) reply => some (p,reply)
    | _ => none

theorem mem_replies {ls : List Access} {p : IntentProposeParams} {reply : Except RpcError Reply}
    (h : (p,reply) ∈ replies ls) : .answer (.propose p) reply ∈ ls := by
  obtain ⟨l,hl,h⟩ := List.mem_filterMap.mp h
  split at h
  · cases h
    exact hl
  · cases h

section
variable [Crates]

/-- The answer stays right: the row of the key stays, and so do the events. -/
theorem Settled.mono {p : IntentProposeParams} {key : String} {reply : Except RpcError Reply} {s s' : App}
    (h : Settled p key reply s) (hg : Grows s s') (hs : Sound s') : Settled p key reply s' := by
  obtain ⟨i,hi,hk,-,hr⟩ := h
  obtain ⟨j,hj,hij⟩ := hg.rows i hi
  have hkj : Store.hasKey p.principal key j=true := by rwa [hij.hasKey]
  exact ⟨j,hj,hkj,fun k hk hkk => hs.keys k hk j hj _ _ hkk hkj,hr.mono hij hg.events⟩

/-- The row that was found under the key is the only one. -/
theorem settled_of_found {p : IntentProposeParams} {key : String} {i : Intent}
    {reply : Except RpcError Reply} {s : App} (hs : Sound s)
    (hf : Store.findIntentByIdempotency s.db p.principal key=some i) (hr : Returns p key i reply s) :
    Settled p key reply s := by
  have hi := List.mem_of_find?_eq_some hf
  have hk := List.find?_some hf
  exact ⟨i,hi,hk,fun j hj hkj => hs.keys j hj i hi _ _ hkj hk,hr⟩

/-- An insertion under a fresh id is refused only where the key is taken. -/
theorem inserting_error {p : IntentProposeParams} {policy : ExecPolicy} {now : ℤ} {s : App} {e : String}
    (hs : Sound s) (h : inserting p policy now s=.error e) : keyFree p s=false := by
  by_contra hfree
  rw [Bool.not_eq_false] at hfree
  have hid : s.db.intents.any (Store.hasId (Crates.newUuid s.drawn))=false :=
    List.any_eq_false.mpr fun i hi hid => hs.fresh i hi s.drawn le_rfl (of_decide_eq_true hid).symm
  have hkey : (p.idempotencyKey.any fun key => s.db.intents.any (Store.hasKey p.principal key))=false := by
    unfold keyFree at hfree
    cases hp : p.idempotencyKey with
    | none => rfl
    | some key =>
      rw [hp] at hfree
      simpa using hfree
  have hrun : ∃ x, inserting p policy now s=.ok x := exists_run_txPropose hid hkey (gate_next p policy)
  obtain ⟨x,hx⟩ := hrun
  rw [hx] at h
  cases h

variable {K : Care App Access}

/-- A proposal that read its key free inserts where it still is. -/
theorem Clear.keyFree {p : IntentProposeParams} {policy : ExecPolicy} {s₀ s : App}
    (h : Clear Sound (fun l s s' => Grows s s' ∧ keyCare.keeps l s s') p policy s₀ s) :
    Execd.keyFree p s=true := by
  cases h with
  | noKey hp _ => simp [Execd.keyFree,hp]
  | free hp _ _ hf h =>
    refine h.2 ?_
    unfold Execd.keyFree
    rw [hp]
    simpa [Store.findIntentByIdempotency] using hf

/-- The row of an insertion is the one of its key. -/
theorem settled_of_inserting {p : IntentProposeParams} {key : String} {policy : ExecPolicy} {now : ℤ}
    {s : App} {i : Intent} {evs : List ExecEvent} {db : Db} {gs : List GateRejection} (hs : Sound s)
    (hp : p.idempotencyKey=some key) (ht : inserting p policy now s=.ok ((i,evs),db)) :
    Settled p key (.ok (.proposed i gs)) { s with db := db, drawn := s.drawn+1 } := by
  obtain ⟨hsame,hfree,rfl⟩ := inserting_ok ht
  have hs' : Sound { s with
      db := { s.db with
        intents := s.db.intents++[i]
        events := s.db.events++evs
        seq := s.db.seq+evs.length }
      drawn := s.drawn+1 } :=
    (hs.insert hsame.intentId hfree rfl rfl (List.prefix_append _ _)).1
  have hk : Store.hasKey p.principal key i=true := by
    rw [hsame.hasKey]
    simp [Store.hasKey,newIntent,hp]
  have hi : i ∈ s.db.intents++[i] := List.mem_append_right _ (List.mem_singleton_self i)
  have hcontent : SameContent i p := (hsame.sameContent p).mpr ⟨rfl,rfl,rfl⟩
  refine ⟨i,hi,hk,fun j hj hkj => hs'.keys j hj i hi _ _ hkj hk,?_⟩
  unfold Returns
  rw [if_pos hcontent]
  exact ⟨i,gs,rfl,rfl⟩

/-- The answer to a proposal is settled where it is given. -/
theorem Answered.settled {p : IntentProposeParams} {key : String} {reply : Except RpcError Reply} {s : App}
    (h : Answered Sound (fun l s s' => Grows s s' ∧ keyCare.keeps l s s') p reply s) (hs : Sound s)
    (hv : validatePropose p=.ok ()) (hp : p.idempotencyKey=some key) : Settled p key reply s := by
  cases h with
  | invalid hinv => rw [hv] at hinv; cases hinv
  | broken hb => exact absurd hb (sameContent_isOk _ _ _)
  | refused _ _ hc h₁ ht =>
    have hfree := hc.keyFree
    rw [inserting_error h₁ ht] at hfree
    cases hfree
  | again _ hp' h₁ hf hb hr =>
    rw [hp] at hp'
    cases hp'
    refine (settled_of_found h₁ hf ?_).mono hr.1 hs
    unfold Returns
    rw [if_pos ((sameContent_ok hb).mp rfl)]
    exact ⟨_,_,rfl,rfl⟩
  | stored _ _ _ h₁ ht h₂ hr₂ hr =>
    exact (settled_of_inserting h₁ hp ht).mono ((hr₂.1.trans (.bus _ _)).trans hr.1) hs
  | @conflict s₁ s₂ s₃ _ key' i ev db _ hp' h₁ hf hb h₂ hr₂ now ht h₃ hr₃ hr =>
    rw [hp] at hp'
    cases hp'
    cases ht
    -- the row is still there when the corruption is noted
    obtain ⟨j,hj,hij⟩ := hr₂.1.rows i (List.mem_of_find?_eq_some hf)
    have hkj : Store.hasKey p.principal key j=true := by
      rw [hij.hasKey]
      exact List.find?_some hf
    have hnot : ¬SameContent j p := by
      rw [hij.sameContent p]
      exact fun hc => Bool.false_ne_true ((sameContent_ok hb).mpr hc)
    have hsettled : Settled p key (.error (Execd.conflict i key)) { s₂ with
        db := { s₂.db with
          events := s₂.db.events++[Store.numbered s₂.db (corruptionEvent p i key now)]
          seq := s₂.db.seq+1 } } := by
      refine ⟨j,hj,hkj,fun k hk hkk => h₂.keys k hk j hj _ _ hkk hkj,?_⟩
      unfold Returns
      rw [if_neg hnot]
      refine ⟨⟨_,rfl,rfl⟩,s₂.db.seq+1,now,?_⟩
      rw [hij.corruptionEvent]
      exact List.mem_append_right _ (List.mem_singleton_self _)
    exact hsettled.mono ((hr₃.1.trans (.bus _ _)).trans hr.1) hs

/-- Every proposal of a run that was answered is settled in the end. -/
theorem settled_of_run {P : Config App Access RpcError → Move Request ℤ → Prop}
    {c : Config App Access RpcError} {ms : List (Move Request ℤ)} (hs : Sound c.state)
    (h : Throughout (step system) (Pact.Kept (rowsPact keyCare) system P) c ms)
    {p : IntentProposeParams} {key : String} {reply : Except RpcError Reply}
    (hv : validatePropose p=.ok ()) (hp : p.idempotencyKey=some key)
    (ha : .answer (.propose p) reply ∈ accesses system c ms) :
    Settled p key reply (run (step system) c ms).state := by
  induction ms generalizing c with
  | nil => cases ha
  | cons m ms ih =>
    rcases List.mem_append.mp ha with ha|ha
    · obtain ⟨hs',hg⟩ := Pact.run_goes h.1.onward.1 h.2
      have hans := Deed.answered _ _ (h.1.owes _ (Option.mem_toList.mp ha))
      exact (hans.settled h.1.onward.1 hv hp).mono hg hs'
    · exact ih h.1.onward.1 h.2 ha

/-- While no request takes the key of a proposal between its lookup and its insertion, every valid
proposal under a key that is answered in a run of requests is settled: the key has one row, the same
content is answered with that row, other content with a conflict that the log notes. -/
theorem proposals_settled (s : App) (hs : Sound s) (ms : List (Move Request ℤ))
    (h : Throughout (step system) (Pact.Undisturbed keyCare system) ⟨s,[]⟩ ms) (p : IntentProposeParams)
    (key : String) (reply : Except RpcError Reply) (hv : validatePropose p=.ok ())
    (hp : p.idempotencyKey=some key) (ha : (p,reply) ∈ replies (accessesOf s ms)) :
    Settled p key reply (run (step system) ⟨s,[]⟩ ms).state :=
  settled_of_run hs (rowsPact_run (fun _ _ h => h) hs h) hv hp (mem_replies ha)

end

/-! Two proposals of one key, which both find it free. -/

/-- The user's withdrawal, which a client sends again. -/
def retry : IntentProposeParams := withdrawal (some "k1")

theorem not_settled_internal (p : IntentProposeParams) (key message : String) (s : App) :
    ¬Settled p key (.error (internal message)) s := by
  rintro ⟨i,-,-,-,hr⟩
  unfold Returns at hr
  split at hr
  · obtain ⟨_,_,h,-⟩ := hr
    cases h
  · obtain ⟨⟨_,h,hk⟩,-⟩ := hr
    cases h
    cases hk

/-- Both look the key up before either inserts. -/
def together : List (Move Request ℤ) :=
  [.spawn (.propose retry),.spawn (.propose retry),.go 0,.go 1,.go 0,.go 1,.go 0,.go 1,.go 1]

theorem retry_internal :
    ¬∀ (h : Crates) (s : App), @Sound h s → ∀ (ms : List (Move Request ℤ)) (p : IntentProposeParams)
      (key : String) (reply : Except RpcError Reply), validatePropose p=.ok () →
      p.idempotencyKey=some key → (p,reply) ∈ replies (@accessesOf h s ms) →
      Settled p key reply (run (step (@system h)) ⟨s,[]⟩ ms).state := by
  intro h
  have hanswer : (retry,.error (internal
      "UNIQUE constraint failed: intents.principal, intents.idempotency_key")) ∈
        replies (@accessesOf plainCrates {} together) := by
    decide +kernel
  exact not_settled_internal _ _ _ _ <|
    h plainCrates {} (@Sound.empty plainCrates {} rfl) together retry "k1" _ (by decide +kernel) rfl hanswer

/-- The second copy, in flight with the first, looks the key up after the row went in; then another
proposal comes under the key. -/
def inTurnUnderKey : List (Move Request ℤ) :=
  [.spawn (.propose retry),.spawn (.propose retry),.go 0,.go 1,.go 0,.go 0,.go 1,.go 1,.go 0,.go 0,
    .spawn (.propose { retry with account := .sub }),.go 2,.go 2,.go 2,.go 2,.go 2]

theorem retry_settled : letI := plainCrates
    Settled { retry with account := .sub } "k1" (.error (Execd.conflict (newIntent retry "0" 0) "k1"))
      (run (step system) ⟨{},[]⟩ inTurnUnderKey).state ∧
      replies (accessesOf {} inTurnUnderKey)=
        [(retry,.ok (.proposed (newIntent retry "0" 0) [])),
          (retry,.ok (.proposed (newIntent retry "0" 0) [])),
          ({ retry with account := .sub },.error (Execd.conflict (newIntent retry "0" 0) "k1"))] := by
  have hkept : letI := plainCrates
      Throughout (step system) (Pact.Undisturbed keyCare system) ⟨{},[]⟩ inTurnUnderKey := by
    decide +kernel
  exact ⟨@proposals_settled plainCrates {} (@Sound.empty plainCrates {} rfl) inTurnUnderKey hkept
    { retry with account := .sub } "k1" _ (by decide +kernel) rfl (by decide +kernel),by decide +kernel⟩

end TradeGate.Execd
