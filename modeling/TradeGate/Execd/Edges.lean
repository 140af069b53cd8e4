import TradeGate.Execd.Policy
import TradeGate.Execd.Rows

/-! The transitions that execd records for its intents, and the table of transitions. -/
namespace TradeGate.Execd
open Js Threads Machine

/-- The transition that an event records: the intent, and the name of the event in the table. -/
def recorded (ev : ExecEvent) : Option (String × String) :=
  ev.intentId.bind fun intentId => match ev.payload.lookup "event" with
    | some (.str name) => some (intentId,name)
    | _ => none

/-- The status that is stored for an intent; one that has no row is still to be proposed. -/
def statusOf (s : App) (intentId : String) : IntentStatus :=
  (Store.getIntent s.db intentId).elim .proposed Intent.status

/-- What a step records is one line of the table at most, from the status that was stored to the one
that is, and no status changes otherwise; a row that has come to its end stays, and rows have an end
time from there on. -/
structure ByTable (s s' : App) : Prop where
  lines : ∃ evs, s'.db.events=s.db.events++evs ∧ (evs.filterMap recorded).length ≤ 1 ∧
    (∀ x ∈ evs.filterMap recorded, ∃ j ∈ s'.db.intents, j.intentId=x.1 ∧
      (statusOf s x.1).nextState x.2=some j.status) ∧
    ∀ j ∈ s'.db.intents, j.status=statusOf s j.intentId ∨
      ∃ name, (j.intentId,name) ∈ evs.filterMap recorded
  ended : ∀ i ∈ s.db.intents, i.status.isTerminal=true → i ∈ s'.db.intents
  dated : ∀ j ∈ s'.db.intents, j.terminalAt.isSome=j.status.isTerminal

/-- Rows that have ended have an end time, and no others. -/
def Dated (s : App) : Prop := ∀ i ∈ s.db.intents, i.terminalAt.isSome=i.status.isTerminal

/-- The status leaves for `rejected` under the name that a rejection gives to the event. -/
def rejectable (p : IntentRejectParams) (status : IntentStatus) : Bool :=
  status=.awaitingApproval ∨ p.principal ≠ .user ∧ (status=.authorized ∨ status=.dispatching)

/-- A rejection goes in where its intent is stored as rejectable. -/
def Timely (s : App) : Access → Prop
  | .rejectIntent p _ => ∀ i ∈ (Store.getIntent s.db p.intentId).toList, rejectable p i.status=true
  | _ => True

instance (s : App) : (l : Access) → Decidable (Timely s l)
  | .rejectIntent p _ => inferInstanceAs
      (Decidable (∀ i ∈ (Store.getIntent s.db p.intentId).toList, rejectable p i.status=true))
  | .loadPolicy _ | .setPolicy _ _ | .findIntent _ _ | .reportCorruption _ _ => .isTrue trivial
  | .insertIntent _ _ | .getIntent _ | .publish _ | .answer _ _ => .isTrue trivial

theorem gate_edge (p : IntentProposeParams) (policy : ExecPolicy) : ∀ x ∈ (gate p policy).2,
    IntentStatus.proposed.nextState x.2=some x.1 := by
  unfold gate
  split
  · rintro x ⟨⟩
    decide
  · split
    · rintro x ⟨⟩
      decide
    · nofun

/-- Exactly from a rejectable status a rejection is a line of the table. -/
theorem rejectable_iff (p : IntentRejectParams) (status : IntentStatus) :
    status.nextState (rejectEvent p)=some .rejected ↔ rejectable p status=true := by
  unfold rejectEvent rejectable
  generalize p.principal=who
  cases who <;> cases status <;> decide

theorem recorded_policy {r : PolicyRequest} {current next : ExecPolicy} {db db' : Db}
    {evs : List ExecEvent} (h : (r.tx current next).run db=.ok (evs,db')) : evs.filterMap recorded=[] := by
  cases r with
  | stop p =>
    cases h
    rfl
  | set p =>
    by_cases hh : isHalted current=isHalted next
    · simp only [PolicyRequest.tx,txPolicySet,StateT.run_bind,Store.run_txUpsertPolicy,
        Store.run_txInsertEvent,Store.ok_bind,ne_eq,hh,not_true_eq_false,if_false,StateT.run_pure] at h
      cases h
      rfl
    · simp only [PolicyRequest.tx,txPolicySet,StateT.run_bind,Store.run_txUpsertPolicy,
        Store.run_txInsertEvent,Store.ok_bind,ne_eq,hh,not_false_eq_true,if_true,StateT.run_pure] at h
      cases h
      rfl

/-! What a step does. -/

section
variable [Crates]

/-- The row of an id is found. -/
theorem Sound.statusOf {s : App} (h : Sound s) {i : Intent} (hi : i ∈ s.db.intents) :
    statusOf s i.intentId=i.status := by
  cases hf : Store.getIntent s.db i.intentId with
  | none =>
    have hno := List.find?_eq_none.mp hf i hi
    simp [Store.hasId] at hno
  | some j =>
    have hid : Store.hasId i.intentId j=true := List.find?_some hf
    have hji : j=i := h.eq_of_id (List.mem_of_find?_eq_some hf) hi (of_decide_eq_true hid)
    rw [Execd.statusOf,hf,hji]
    rfl

/-- A step that leaves the rows and records nothing. -/
theorem ByTable.of_eq {s s' : App} (hs : Sound s) (hd : Dated s) (hi : s'.db.intents=s.db.intents)
    {evs : List ExecEvent} (he : s'.db.events=s.db.events++evs) (hr : evs.filterMap recorded=[]) :
    ByTable s s' where
  lines := by
    refine ⟨evs,he,by rw [hr]; decide,by rw [hr]; nofun,fun j hj => .inl ?_⟩
    rw [hi] at hj
    exact (hs.statusOf hj).symm
  ended i h _ := by rwa [hi]
  dated := by rw [hi]; exact hd

theorem ByTable.refl {s : App} (hs : Sound s) (hd : Dated s) : ByTable s s :=
  .of_eq hs hd rfl (List.append_nil _).symm rfl

/-- An id that is still to be drawn has no row. -/
theorem Sound.statusOf_fresh {s : App} (h : Sound s) :
    Execd.statusOf s (Crates.newUuid s.drawn)=.proposed := by
  have hf : Store.getIntent s.db (Crates.newUuid s.drawn)=none :=
    List.find?_eq_none.mpr fun i hi hid => h.fresh i hi s.drawn le_rfl (of_decide_eq_true hid).symm
  rw [Execd.statusOf,hf]
  rfl

theorem byTable_insert {s : App} {p : IntentProposeParams} {policy : ExecPolicy} {now : ℤ} {i : Intent}
    {evs : List ExecEvent} {db : Db} (hs : Sound s) (hd : Dated s)
    (ht : inserting p policy now s=.ok ((i,evs),db)) :
    ByTable s { s with db := db, drawn := s.drawn+1 } := by
  obtain ⟨-,-,rfl,hrow⟩ := run_txPropose ht
  have hold : ∀ j ∈ s.db.intents, j.status=statusOf s j.intentId := fun j hj => (hs.statusOf hj).symm
  rcases hrow with ⟨-,rfl,rfl⟩|⟨target,name,hnext,-,rfl,rfl⟩
  · -- the row is as proposed
    refine ⟨⟨_,rfl,Nat.zero_le 1,nofun,fun j hj => .inl ?_⟩,fun j hj _ => List.mem_append_left _ hj,
      fun j hj => ?_⟩
    · rcases List.mem_append.mp hj with hj|hj
      · exact hold j hj
      · cases List.mem_singleton.mp hj
        exact hs.statusOf_fresh.symm
    · rcases List.mem_append.mp hj with hj|hj
      · exact hd j hj
      · cases List.mem_singleton.mp hj
        rfl
  · -- the gate moves it on
    have hedge := gate_edge p policy _ hnext
    refine ⟨⟨_,rfl,Nat.le_refl 1,fun x hx => ?_,fun j hj => ?_⟩,fun j hj _ => List.mem_append_left _ hj,
      fun j hj => ?_⟩
    · cases List.mem_singleton.mp hx
      refine ⟨_,List.mem_append_right _ (List.mem_singleton_self _),rfl,?_⟩
      rw [show (gated (newIntent p (Crates.newUuid s.drawn) now) _ target now).intentId=
        Crates.newUuid s.drawn from rfl,hs.statusOf_fresh]
      exact hedge
    · rcases List.mem_append.mp hj with hj|hj
      · exact .inl (hold j hj)
      · cases List.mem_singleton.mp hj
        exact .inr ⟨name,List.mem_singleton_self _⟩
    · rcases List.mem_append.mp hj with hj|hj
      · exact hd j hj
      · cases List.mem_singleton.mp hj
        simp only [gated]
        cases target.isTerminal <;> rfl

theorem byTable_reject {s : App} {p : IntentRejectParams} {i : Intent} {now : ℤ}
    {evs : List ExecEvent} {db : Db} (hs : Sound s) (hd : Dated s) (hi : i.intentId=p.intentId)
    (hp : Timely s (.rejectIntent p i)) (hx : (txReject p (rejectedIntent p i now) now).run s.db=.ok (evs,db)) :
    ByTable s { s with db := db } := by
  obtain ⟨hany,rfl,rfl⟩ := run_txReject hx
  obtain ⟨k,hk,hid : Store.hasId i.intentId k=true⟩ := List.any_eq_true.mp hany
  have hki : k.intentId=i.intentId := of_decide_eq_true hid
  have hstored : statusOf s i.intentId=k.status := by rw [← hki,hs.statusOf hk]
  have hfrom : rejectable p k.status=true := by
    obtain ⟨j,hj⟩ := Option.isSome_iff_exists.mp (List.find?_isSome.mpr ⟨k,hk,hid⟩)
    have hjid : Store.hasId i.intentId j=true := List.find?_some hj
    have hjk : j=k := hs.eq_of_id (List.mem_of_find?_eq_some hj) hk ((of_decide_eq_true hjid).trans hki.symm)
    subst hjk
    refine hp j (Option.mem_toList.mpr ?_)
    rw [← hi]
    exact hj
  refine ⟨⟨_,rfl,Nat.le_refl 1,fun x hx => ?_,fun j hj => ?_⟩,fun j hj he => ?_,fun j hj => ?_⟩
  · cases List.mem_singleton.mp hx
    refine ⟨rejectedIntent p i now,List.mem_map.mpr ⟨k,hk,if_pos hid⟩,rfl,?_⟩
    change (statusOf s i.intentId).nextState (rejectEvent p)=some .rejected
    rw [hstored]
    exact (rejectable_iff p k.status).mpr hfrom
  · obtain ⟨l,hl,rfl⟩ := List.mem_map.mp hj
    split
    · exact .inr ⟨_,List.mem_singleton_self _⟩
    · exact .inl (hs.statusOf hl).symm
  · -- a row that has ended is not rejectable
    have hne : ¬Store.hasId i.intentId j=true := by
      intro hjid
      have hjk : j=k := hs.eq_of_id hj hk ((of_decide_eq_true hjid).trans hki.symm)
      subst hjk
      unfold rejectable at hfrom
      rcases of_decide_eq_true hfrom with h|⟨-,h|h⟩ <;>
        · rw [h] at he
          exact absurd he (by decide)
    exact List.mem_map.mpr ⟨j,hj,if_neg hne⟩
  · obtain ⟨l,hl,rfl⟩ := List.mem_map.mp hj
    split
    · rfl
    · exact hd l hl

/-- An access keeps to the table. -/
theorem Deed.byTable {R : Access → App → App → Prop} {l : Access} {s s' : App} (hs : Sound s)
    (hd : Dated s) (ht : Timely s l) (h : Deed Sound R l s s') : ByTable s s' := by
  cases h with
  | load r => exact .refl hs hd
  | find p policy => exact .refl hs hd
  | get p => exact .refl hs hd
  | refuse _ _ _ _ => exact .refl hs hd
  | missed p i => exact .refl hs hd
  | answer _ => exact .refl hs hd
  | publish evs => exact .of_eq hs hd rfl (List.append_nil _).symm rfl
  | @report _ _ p key i now _ _ _ _ _ _ hrun =>
    cases hrun
    exact .of_eq hs hd rfl rfl rfl
  | @setPolicy s₀ _ r policy _ _ _ _ _ hrun =>
    obtain ⟨evs,hrun'⟩ := run_policy r s₀.currentPolicy policy s.db
    have hnone := recorded_policy hrun'
    rw [hrun'] at hrun
    cases hrun
    exact .of_eq hs hd rfl rfl hnone
  | insert _ _ _ hrun => exact byTable_insert hs hd hrun
  | @reject _ _ p i _ _ _ _ hf _ _ hx =>
    have hid : Store.hasId p.intentId i=true := List.find?_some hf
    exact byTable_reject hs hd (of_decide_eq_true hid) ht hx

end

/-! Whole runs. -/

/-- The names of the transitions that events record for an intent. -/
def names (intentId : String) (evs : List ExecEvent) : List String :=
  (evs.filterMap recorded).filterMap fun x => if x.1=intentId then some x.2 else none

/-- What was recorded for an intent leads in the table from its status before to its status since. -/
def Follows (s s' : App) : Prop :=
  ∃ evs, s'.db.events=s.db.events++evs ∧ ∀ intentId,
    (names intentId evs).foldlM IntentStatus.nextState (statusOf s intentId)=some (statusOf s' intentId)

theorem Follows.refl (s : App) : Follows s s := ⟨[],by simp,fun _ => rfl⟩

theorem names_append (intentId : String) (evs evs' : List ExecEvent) :
    names intentId (evs++evs')=names intentId evs++names intentId evs' := by
  unfold names
  rw [List.filterMap_append,List.filterMap_append]

theorem Follows.trans {s s' s'' : App} (h : Follows s s') (h' : Follows s' s'') : Follows s s'' := by
  obtain ⟨evs,he,hf⟩ := h
  obtain ⟨evs',he',hf'⟩ := h'
  refine ⟨evs++evs',by rw [he',he,List.append_assoc],fun intentId => ?_⟩
  rw [names_append,List.foldlM_append,hf intentId]
  exact hf' intentId

section
variable [Crates]

/-- One step that keeps to the table is at most one line of it. -/
theorem ByTable.follows {s s' : App} (h : ByTable s s') (hs' : Sound s') (hg : Grows s s') :
    Follows s s' := by
  obtain ⟨evs,he,hone,hlines,hstill⟩ := h.lines
  refine ⟨evs,he,fun intentId => ?_⟩
  -- where nothing was recorded for the intent, its status is as before
  have hsame : (∀ name, (intentId,name) ∉ evs.filterMap recorded) →
      statusOf s intentId=statusOf s' intentId := by
    intro hno
    by_cases hrow : ∃ j ∈ s'.db.intents, j.intentId=intentId
    · obtain ⟨j,hj,rfl⟩ := hrow
      rw [hs'.statusOf hj]
      rcases hstill j hj with h|⟨name,hname⟩
      · exact h.symm
      · exact absurd hname (hno name)
    · push Not at hrow
      have hnone' : Store.getIntent s'.db intentId=none :=
        List.find?_eq_none.mpr fun j hj hid => hrow j hj (of_decide_eq_true hid)
      have hnone : Store.getIntent s.db intentId=none :=
        List.find?_eq_none.mpr fun i hi hid => by
          obtain ⟨j,hj,hij⟩ := hg.rows i hi
          exact hrow j hj (hij.intentId.trans (of_decide_eq_true hid))
      rw [statusOf,statusOf,hnone,hnone']
  unfold names
  cases hr : evs.filterMap recorded with
  | nil =>
    rw [hr] at hsame
    rw [hsame nofun]
    rfl
  | cons x xs =>
    rw [hr] at hone hsame hlines
    obtain rfl : xs=[] := List.eq_nil_of_length_eq_zero (by simpa using hone)
    by_cases hx : x.1=intentId
    · obtain ⟨j,hj,hjx,hedge⟩ := hlines x (List.mem_singleton_self x)
      simp only [List.filterMap_cons,hx,if_true,List.filterMap_nil]
      rw [hx] at hedge hjx
      subst hjx
      rw [hs'.statusOf hj]
      simpa using hedge
    · simp only [List.filterMap_cons,hx,if_false,List.filterMap_nil]
      rw [hsame fun name hmem => hx (congrArg Prod.fst (List.mem_singleton.mp hmem)).symm]
      rfl

/-- What a run of requests makes of the transitions. -/
theorem byTable_of_run {s : App} (hs : Sound s) (hd : Dated s) {ms : List (Move Request ℤ)}
    (h : Throughout (step system) (fun c m => ∀ l ∈ c.label m, Timely c.state l) ⟨s,[]⟩ ms) :
    Throughout (step system) (fun c m => ByTable c.state (step system c m).state ∧
      Follows c.state (step system c m).state) ⟨s,[]⟩ ms := by
  have hP : ∀ (c : Config App Access RpcError) (m : Move Request ℤ),
      (∀ l ∈ c.label m, Timely c.state l) → Pact.Undisturbed Care.free system c m :=
    fun _ _ _ _ _ _ _ _ _ => trivial
  have hstep : ∀ (c : Config App Access RpcError) (m : Move Request ℤ), Dated c.state →
      Pact.Kept (rowsPact Care.free) system (fun c m => ∀ l ∈ c.label m, Timely c.state l) c m →
      ByTable c.state (step system c m).state := by
    intro c m hd hm
    cases hl : c.label m with
    | some l => exact (hm.owes l hl).byTable hm.inv hd (hm.cond l hl)
    | none =>
      rcases step_of_noLabel (S := system) hl with he|⟨e,-,he⟩
      · rw [he]
        exact .refl hm.inv hd
      · rw [he]
        exact .of_eq hm.inv hd rfl (List.append_nil _).symm rfl
  exact throughout_of_invariant (I := fun c : Config App Access RpcError => Dated c.state)
    (fun c m hd hm => (hstep c m hd hm).dated)
    (fun c m hd hm => ⟨hstep c m hd hm,(hstep c m hd hm).follows hm.onward.1 hm.onward.2⟩) hd
    (rowsPact_run hP hs h)

theorem follows_of_throughout {c : Config App Access RpcError} {ms : List (Move Request ℤ)}
    (h : Throughout (step system) (fun c m => ByTable c.state (step system c m).state ∧
      Follows c.state (step system c m).state) c ms) : Follows c.state (run (step system) c ms).state := by
  induction ms generalizing c with
  | nil => exact .refl _
  | cons m ms ih => exact h.1.2.trans (ih h.2)

/-- While every rejection that goes in finds its intent rejectable, every step of a run of requests keeps
to the table, and all that the run recorded for an intent leads from its status before to its status in
the end. -/
theorem transitions_by_table (s : App) (hs : Sound s) (hd : Dated s) (ms : List (Move Request ℤ))
    (h : Throughout (step system) (fun c m => ∀ l ∈ c.label m, Timely c.state l) ⟨s,[]⟩ ms) :
    Throughout (step system) (fun c m => ByTable c.state (step system c m).state) ⟨s,[]⟩ ms ∧
      Follows s (run (step system) ⟨s,[]⟩ ms).state := by
  have hrun := byTable_of_run hs hd h
  refine ⟨throughout_of_invariant (I := fun _ => True) (fun _ _ _ _ => trivial)
    (fun c m _ hm => hm.1) trivial hrun,follows_of_throughout hrun⟩

end

/-! The user rejects an intent that is still proposed. -/

def refusal : IntentRejectParams := ⟨"0","no",.user,.rpc⟩

def refusedEarly : List (Move Request ℤ) :=
  [.spawn (.propose (withdrawal none)),.go 0,.go 0,.spawn (.reject refusal),.go 1,.go 1]

/-- What is recorded first on an empty log is a line from the status before. -/
theorem Follows.first {s s' : App} (h : Follows s s') {intentId name : String} (he : s.db.events=[])
    (hn : names intentId s'.db.events=[name]) : (statusOf s intentId).nextState name ≠ none := by
  obtain ⟨evs,hevs,hf⟩ := h
  rw [he,List.nil_append] at hevs
  have hpath := hf intentId
  rw [← hevs,hn] at hpath
  intro hno
  simp [hno] at hpath

theorem dated_empty : Dated {} := fun _ hi => absurd hi List.not_mem_nil

theorem rejection_off_table :
    ¬∀ (h : Crates) (s : App), @Sound h s → Dated s → ∀ (ms : List (Move Request ℤ)),
      Throughout (step (@system h)) (fun c m => ByTable c.state (step (@system h) c m).state) ⟨s,[]⟩ ms ∧
        Follows s (run (step (@system h)) ⟨s,[]⟩ ms).state := by
  intro h
  have hnames : names "0" (run (step (@system plainCrates)) ⟨{},[]⟩ refusedEarly).state.db.events=
      ["user_rejected"] := by
    decide +kernel
  have hfollows := (h plainCrates {} (@Sound.empty plainCrates {} rfl) dated_empty refusedEarly).2
  exact hfollows.first rfl hnames (by decide +kernel)

/-- An intent that waits for its approval. -/
def waiting [Crates] : App :=
  { db := { intents := [{ newIntent (withdrawal none) (Crates.newUuid 0) 0 with status := .awaitingApproval }] }
    drawn := 1 }

theorem sound_waiting [Crates] : Sound waiting where
  ids := List.nodup_singleton _
  keys i hi j hj _ _ _ _ := by rw [List.mem_singleton.mp hi,List.mem_singleton.mp hj]
  fresh i hi n hn h := by
    rw [List.mem_singleton.mp hi] at h
    have h0 : n=0 := Crates.newUuid_injective h
    change 1 ≤ n at hn
    omega

/-- The user rejects it, and then an agent proposes while the authority is to observe. -/
def refusedInTime : List (Move Request ℤ) :=
  [.spawn (.reject refusal),.go 0,.go 0,.go 0,.go 0,
    .spawn (.propose { withdrawal none with account := .sub, principal := .model }),.go 1,.go 1]

theorem rejection_by_table : letI := plainCrates
    (Throughout (step system) (fun c m => ByTable c.state (step system c m).state) ⟨waiting,[]⟩ refusedInTime ∧
      Follows waiting (run (step system) ⟨waiting,[]⟩ refusedInTime).state) ∧
      (run (step system) ⟨waiting,[]⟩ refusedInTime).state.db.events.filterMap recorded=
        [("0","user_rejected"),("1","observe_only")] := by
  have htimely : letI := plainCrates
      Throughout (step system) (fun c m => ∀ l ∈ c.label m, Timely c.state l) ⟨waiting,[]⟩ refusedInTime := by
    decide +kernel
  exact ⟨@transitions_by_table plainCrates (@waiting plainCrates) (@sound_waiting plainCrates)
    (by unfold Dated; decide) refusedInTime htimely,by decide +kernel⟩

end TradeGate.Execd
