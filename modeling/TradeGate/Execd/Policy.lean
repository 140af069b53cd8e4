import TradeGate.Execd.Deeds
import TradeGate.Js.Digits

/-! The policies that execd stores, one after the other. -/
namespace TradeGate.Execd
open Js Threads Machine

/-- A request that read the policy counts on it until it stores its own. -/
def policyCare : Care App Access where
  keeps l s s' := match l with
    | .setPolicy _ _ => s'.db.policy=s.db.policy
    | _ => True
  refl l s := by cases l <;> trivial
  trans l s s' s'' h h' := by
    cases l <;> first | trivial | exact h'.trans h

instance : (l : Access) → (s s' : App) → Decidable (policyCare.keeps l s s')
  | .setPolicy _ _, s, s' => inferInstanceAs (Decidable (s'.db.policy=s.db.policy))
  | .loadPolicy _, _, _ | .findIntent _ _, _, _ | .reportCorruption _ _, _, _ => .isTrue trivial
  | .insertIntent _ _, _, _ | .getIntent _, _, _ | .rejectIntent _ _, _, _ => .isTrue trivial
  | .publish _, _, _ | .answer _ _, _, _ => .isTrue trivial

/-- The policy in force, as far as it does not depend on the clock. -/
def inForce (s : App) : ExecPolicy := s.db.policy.getD (defaultPolicy 0)

/-- The policies that the accesses store. -/
def stored (ls : List Access) : List (PolicyRequest × ExecPolicy) :=
  ls.filterMap fun l => match l with
    | .setPolicy r policy => some (r,policy)
    | _ => none

/-- The version can still go up. -/
def HasRoom (policy : ExecPolicy) : Prop := policy.version.toNat+1<2^32

/-- Each request made its policy of the one before, whose version had room. -/
def Serial : ExecPolicy → List (PolicyRequest × ExecPolicy) → Prop
  | _, [] => True
  | current, w::ws => (w.1.next current w.2.updatedAt=.ok w.2 ∧ HasRoom current) ∧ Serial w.2 ws

/-- A version goes up by one. -/
def Bumps (a b : ExecPolicy) : Prop := b.version.toNat=a.version.toNat+1

/-- The policy is not as strict as the one that a stop stored. -/
def Loosens (policy stopped : ExecPolicy) : Prop :=
  policy.emergencyStop=false ∨ policy.mode.severity<stopped.mode.severity

instance (a b : ExecPolicy) : Decidable (Loosens a b) := inferInstanceAs (Decidable (_ ∨ _))

/-- The versions go up by one each time, no two are the same, and after a stop the policy is loosened
only by a request of its version plus one, which saw the policy still stopped. -/
structure Orderly (current : ExecPolicy) (ws : List (PolicyRequest × ExecPolicy)) : Prop where
  consecutive : List.IsChain Bumps (current::ws.map Prod.snd)
  distinct : (ws.map fun w => w.2.version).Nodup
  seen : ∀ (i j : ℕ) p stopped r policy, ws[i]?=some (.stop p,stopped) → ws[j]?=some (r,policy) → i<j →
    Loosens policy stopped → ∃ k b q next, i ≤ k ∧ k<j ∧ ws[k]?=some b ∧ ws[k+1]?=some (.set q,next) ∧
      ¬Loosens b.2 stopped ∧ Loosens next stopped ∧ q.policy.version.toNat=b.2.version.toNat+1

/-! What a request makes of a policy. -/

theorem validateSet_version {current next : ExecPolicy} {confirm : PolicyConfirm} {u : Unit}
    (h : validateSet current next confirm=.ok u) : next.version=current.version+1 := by
  by_contra hv
  unfold validateSet at h
  by_cases hc : confirm.mode ≠ next.mode.asStr ∨ confirm.authority ≠ next.authority.asStr
  · rw [if_pos hc] at h
    cases h
  · rw [if_neg hc,if_pos hv] at h
    cases h

/-- A stop is stopped at the mode it asks for, which is as strict as before. -/
theorem applyEmergency_ok {current policy : ExecPolicy} {mode : EmergencyMode} {now : ℤ}
    (h : applyEmergency current mode now=.ok policy) : policy.emergencyStop=true ∧
      current.mode.severity ≤ policy.mode.severity ∧ policy.version=current.version+1 ∧
      policy.updatedAt=now := by
  unfold applyEmergency at h
  dsimp only at h
  split at h
  · cases h
  · next hs =>
    cases h
    exact ⟨rfl,not_lt.mp hs,rfl,rfl⟩

theorem next_set {p : PolicySetParams} {current policy : ExecPolicy} {now : ℤ}
    (h : (PolicyRequest.set p).next current now=.ok policy) :
    p.policy.version=current.version+1 ∧ policy={ p.policy with updatedAt := now } := by
  rw [PolicyRequest.next] at h
  cases hv : validateSet current p.policy p.confirm with
  | error e =>
    rw [hv] at h
    cases h
  | ok u =>
    rw [hv] at h
    cases h
    exact ⟨validateSet_version hv,rfl⟩

theorem next_version {r : PolicyRequest} {current policy : ExecPolicy} {now : ℤ}
    (h : r.next current now=.ok policy) :
    policy.version=current.version+1 ∧ policy.updatedAt=now := by
  cases r with
  | stop p => exact (applyEmergency_ok h).2.2
  | set p =>
    obtain ⟨hv,rfl⟩ := next_set h
    exact ⟨hv,rfl⟩

/-- The clock of a default policy does not matter. -/
theorem next_default (r : PolicyRequest) (row : Option ExecPolicy) (a b now : ℤ) :
    r.next (row.getD (defaultPolicy a)) now=r.next (row.getD (defaultPolicy b)) now := by
  cases row with
  | some policy => rfl
  | none => cases r <;> rfl

/-- What loosens a stopped policy is the policy of a request that saw it. -/
theorem loosens_set {r : PolicyRequest} {current policy stopped : ExecPolicy} {now : ℤ}
    (h : r.next current now=.ok policy) (hc : ¬Loosens current stopped) (hl : Loosens policy stopped) :
    ∃ q, r=.set q ∧ q.policy.version=current.version+1 := by
  unfold Loosens at hc hl
  push Not at hc
  cases r with
  | stop p =>
    obtain ⟨hstop,hmode,-⟩ := applyEmergency_ok h
    rcases hl with hl|hl
    · rw [hstop] at hl
      cases hl
    · omega
  | set q => exact ⟨q,rfl,(next_set h).1⟩

/-! Serial policies. -/

theorem toNat_add_one {v : UInt32} (h : v.toNat+1<2^32) : (v+1).toNat=v.toNat+1 := by
  rw [UInt32.toNat_add]
  simpa using Nat.mod_eq_of_lt h

theorem bumps_of_next {r : PolicyRequest} {current policy : ExecPolicy} {now : ℤ}
    (h : r.next current now=.ok policy) (hroom : HasRoom current) : Bumps current policy := by
  unfold Bumps
  rw [(next_version h).1]
  exact toNat_add_one hroom

/-- Every policy was made of some policy. -/
theorem Serial.made {current : ExecPolicy} {ws : List (PolicyRequest × ExecPolicy)}
    (h : Serial current ws) {w : PolicyRequest × ExecPolicy} (hw : w ∈ ws) :
    ∃ a, w.1.next a w.2.updatedAt=.ok w.2 := by
  induction ws generalizing current with
  | nil => cases hw
  | cons v ws ih =>
    rcases List.mem_cons.mp hw with rfl|hw
    · exact ⟨current,h.1.1⟩
    · exact ih h.2 hw

theorem Serial.next {current : ExecPolicy} {ws : List (PolicyRequest × ExecPolicy)}
    (h : Serial current ws) {k : ℕ} {a b : PolicyRequest × ExecPolicy} (ha : ws[k]?=some a)
    (hb : ws[k+1]?=some b) : b.1.next a.2 b.2.updatedAt=.ok b.2 ∧ HasRoom a.2 := by
  induction ws generalizing current k with
  | nil => cases ha
  | cons w ws ih =>
    cases k with
    | succ k => exact ih h.2 ha hb
    | zero =>
      cases ha
      cases ws with
      | nil => cases hb
      | cons w' ws =>
        cases hb
        exact h.2.1

theorem Serial.consecutive {current : ExecPolicy} {ws : List (PolicyRequest × ExecPolicy)}
    (h : Serial current ws) : List.IsChain Bumps (current::ws.map Prod.snd) := by
  induction ws generalizing current with
  | nil => exact .singleton _
  | cons w ws ih => exact .cons_cons (bumps_of_next h.1.1 h.1.2) (ih h.2)

/-- Along a chain of policies the versions grow. -/
theorem versions_lt {current : ExecPolicy} {ps : List ExecPolicy} (h : List.IsChain Bumps (current::ps)) :
    (current::ps).Pairwise fun a b => a.version.toNat<b.version.toNat := by
  have hlt : List.IsChain (fun a b : ExecPolicy => a.version.toNat<b.version.toNat) (current::ps) :=
    h.imp fun a b hab => by unfold Bumps at hab; omega
  have : IsTrans ExecPolicy fun a b => a.version.toNat<b.version.toNat := ⟨fun _ _ _ => Nat.lt_trans⟩
  exact hlt.pairwise

/-- The step by which a stop is loosened, going back from where it is loose. -/
theorem Serial.seen {current : ExecPolicy} {ws : List (PolicyRequest × ExecPolicy)}
    (h : Serial current ws) {i j : ℕ} {stop b : PolicyRequest × ExecPolicy} (hi : ws[i]?=some stop)
    (hstop : ¬Loosens stop.2 stop.2) (hj : ws[j]?=some b) (hij : i<j) (hl : Loosens b.2 stop.2) :
    ∃ k b q next, i ≤ k ∧ k<j ∧ ws[k]?=some b ∧ ws[k+1]?=some (.set q,next) ∧ ¬Loosens b.2 stop.2 ∧
      Loosens next stop.2 ∧ q.policy.version.toNat=b.2.version.toNat+1 := by
  induction j generalizing b with
  | zero => omega
  | succ j ih =>
    have hlt : j<ws.length := by
      have := (List.getElem?_eq_some_iff.mp hj).1
      omega
    obtain ⟨a,ha⟩ : ∃ a, ws[j]?=some a := ⟨_,List.getElem?_eq_getElem hlt⟩
    obtain ⟨hn,hroom⟩ := h.next ha hj
    by_cases hla : Loosens a.2 stop.2
    · have hne : i ≠ j := by
        rintro rfl
        rw [hi] at ha
        cases ha
        exact hstop hla
      obtain ⟨k,b',q,next,hik,hkj,hrest⟩ := ih ha (by omega) hla
      exact ⟨k,b',q,next,hik,by omega,hrest⟩
    · obtain ⟨q,hq,hv⟩ := loosens_set hn hla hl
      refine ⟨j,a,q,b.2,by omega,by omega,ha,by rw [hj,← hq],hla,hl,?_⟩
      rw [hv]
      exact toNat_add_one hroom

theorem Serial.orderly {current : ExecPolicy} {ws : List (PolicyRequest × ExecPolicy)}
    (h : Serial current ws) : Orderly current ws where
  consecutive := h.consecutive
  distinct := by
    have hlt := (List.pairwise_cons.mp (versions_lt h.consecutive)).2
    rw [List.Nodup,List.pairwise_map]
    exact (List.pairwise_map.mp hlt).imp fun hab heq => by rw [heq] at hab; omega
  seen i j p stopped r policy hi hj hij hl := by
    obtain ⟨a,ha⟩ := h.made (List.mem_of_getElem? hi)
    refine h.seen hi (fun hs => ?_) hj hij hl
    rcases hs with hs|hs
    · rw [(applyEmergency_ok ha).1] at hs
      cases hs
    · exact absurd hs (lt_irrefl _)

/-! Runs. -/
section
variable [Crates]

/-- The access, if it stores a policy, finds room for the version. -/
def Fits (s : App) : Option Access → Prop
  | some (.setPolicy _ _) => HasRoom (inForce s)
  | _ => True

instance (s : App) : (l : Option Access) → Decidable (Fits s l)
  | some (.setPolicy _ _) => inferInstanceAs (Decidable (_<_))
  | some (.loadPolicy _) | some (.findIntent _ _) | some (.reportCorruption _ _) => .isTrue trivial
  | some (.insertIntent _ _) | some (.getIntent _) | some (.rejectIntent _ _) => .isTrue trivial
  | some (.publish _) | some (.answer _ _) | none => .isTrue trivial

/-- The moves that meet the condition: no request stores a policy while another one is about to store
its own over the same, and the version has room. -/
def Attended (c : Config App Access RpcError) (m : Move Request ℤ) : Prop :=
  Pact.Undisturbed policyCare system c m ∧ Fits c.state (c.label m)

instance (c : Config App Access RpcError) (m : Move Request ℤ) : Decidable (Attended c m) :=
  inferInstanceAs (Decidable (_ ∧ _))

/-- Every access of a request is a deed; a policy is stored over the one that was read. -/
def policyPact : Pact App Access :=
  policyCare.pact (Deed (fun _ => True) fun l s s' => True ∧ policyCare.keeps l s s')

/-- The accesses of a run from a store on which no request is at work. -/
def accessesOf (s : App) (ms : List (Move Request ℤ)) : List Access := accesses system ⟨s,[]⟩ ms

section
variable {inv : App → Prop} {R : Access → App → App → Prop} {l : Access} {s s' : App}

/-- Only the access for it stores a policy. -/
theorem Deed.policy (h : Deed inv R l s s') (hl : ∀ r policy, l ≠ .setPolicy r policy) :
    s'.db.policy=s.db.policy := by
  cases h with
  | setPolicy _ _ _ _ => exact absurd rfl (hl _ _)
  | load r => rfl
  | find p policy => rfl
  | get p => rfl
  | refuse _ _ _ _ => rfl
  | missed p i => rfl
  | publish evs => rfl
  | answer _ => rfl
  | report _ _ _ _ ht =>
    cases ht
    rfl
  | insert _ _ _ ht =>
    obtain ⟨-,-,rfl,-⟩ := run_txPropose ht
    rfl
  | reject _ _ _ _ hx =>
    obtain ⟨-,-,rfl⟩ := run_txReject hx
    rfl

/-- The policy in force is made to the one that is stored. -/
theorem Deed.setPolicy_next {r : PolicyRequest} {policy : ExecPolicy}
    (hR : ∀ s₀ s, R (.setPolicy r policy) s₀ s → s.db.policy=s₀.db.policy)
    (h : Deed inv R (.setPolicy r policy) s s') :
    r.next (inForce s) policy.updatedAt=.ok policy ∧ inForce s'=policy := by
  cases h with
  | @setPolicy s₀ _ _ _ evs db _ hr hn ht =>
    obtain ⟨evs',hrun⟩ := run_policy r s₀.currentPolicy policy s.db
    rw [hrun] at ht
    cases ht
    refine ⟨?_,rfl⟩
    rw [(next_version hn).2,inForce,hR _ _ hr,next_default r _ 0 s₀.now]
    exact hn

end

omit [Crates] in
theorem stored_singleton {l : Access} (hl : ∀ r policy, l ≠ .setPolicy r policy) : stored [l]=[] := by
  cases l <;> first | rfl | exact absurd rfl (hl _ _)

/-- The policies that a run stores are serial, from the one in force on. -/
theorem serial_stored {inv : App → Prop} {R : Access → App → App → Prop}
    (hR : ∀ r policy s₀ s, R (.setPolicy r policy) s₀ s → s.db.policy=s₀.db.policy)
    {c : Config App Access RpcError} {ms : List (Move Request ℤ)}
    (h : Throughout (step system) (fun c m =>
      Fits c.state (c.label m) ∧
        ∀ l ∈ c.label m, Deed inv R l c.state (step system c m).state) c ms) :
    Serial (inForce c.state) (stored (accesses system c ms)) := by
  induction ms generalizing c with
  | nil => trivial
  | cons m ms ih =>
    obtain ⟨⟨hroom,hdeed⟩,hms⟩ := h
    have hrest := ih hms
    unfold accesses
    rw [stored,List.filterMap_append]
    change Serial _ (stored _++stored _)
    cases hl : c.label m with
    | none =>
      have hsame : inForce (step system c m).state=inForce c.state := by
        rcases step_of_noLabel (S := system) hl with hs|⟨e,-,hs⟩
        · rw [hs]
        · rw [hs]
          rfl
      rw [hsame] at hrest
      exact hrest
    | some l =>
      have hd := hdeed l hl
      by_cases hset : ∃ r policy, l=.setPolicy r policy
      · obtain ⟨r,policy,rfl⟩ := hset
        rw [hl] at hroom
        obtain ⟨hn,hnew⟩ := hd.setPolicy_next (hR r policy)
        rw [hnew] at hrest
        exact ⟨⟨hn,hroom⟩,hrest⟩
      · push Not at hset
        have hsame : inForce (step system c m).state=inForce c.state := by
          unfold inForce
          rw [hd.policy hset]
        rw [hsame] at hrest
        rw [Option.toList_some,stored_singleton hset]
        exact hrest

/-- While no request stores a policy over one that another request has read and no version runs out of
room, the stored policies are orderly in every run of requests, whatever the order of their accesses. -/
theorem policies_orderly (s : App) (ms : List (Move Request ℤ))
    (h : Throughout (step system) Attended ⟨s,[]⟩ ms) : Orderly (inForce s) (stored (accessesOf s ms)) := by
  have hrun := Pact.throughout (C := policyPact) (S := system) (fun _ _ _ => ⟨trivial,trivial⟩)
    (dispatch_meets fun _ _ _ h => h) (fun _ _ h => h.1) (.start trivial) h
  have hdeeds : Throughout (step system) (fun c m =>
      Fits c.state (c.label m) ∧
        ∀ l ∈ c.label m, Deed policyPact.inv policyPact.Relies l c.state (step system c m).state)
      ⟨s,[]⟩ ms :=
    throughout_of_invariant (I := fun _ => True) (fun _ _ _ _ => trivial)
      (fun c m _ hm => ⟨hm.cond.2,hm.owes⟩) trivial hrun
  exact (serial_stored (fun _ _ _ _ hr => hr.2) hdeeds).orderly

end

/-! A stop that a policy set at the same time overwrites. -/

/-- Ids that count up, and texts as they are. -/
@[reducible] def plainCrates : Crates := ⟨toString,fun _ _ h => natText_injective h,id⟩

def pressed : EmergencyStopParams := ⟨.haltAll,"loss",.user,.rpc⟩

def drafted : PolicySetParams :=
  ⟨{ defaultPolicy 0 with version := 1, authority := .draft },⟨"run","draft"⟩,.user,.rpc⟩

/-- Both requests read before either stores. -/
def racing : List (Move Request ℤ) :=
  [.spawn (.policy (.stop pressed)),.spawn (.policy (.set drafted)),.go 0,.go 1,.go 0,.go 1]

theorem stop_overwritten :
    ¬∀ (h : Crates) (s : App) (ms : List (Move Request ℤ)),
      Orderly (inForce s) (stored (@accessesOf h s ms)) := by
  intro h
  have hversions : (stored (@accessesOf plainCrates {} racing)).map (fun w => w.2.version)=[1,1] := by
    decide +kernel
  have hdistinct := (h plainCrates {} racing).distinct
  rw [hversions] at hdistinct
  exact absurd hdistinct (by decide)

/-- The stop goes in, and then the user drafts a policy that has seen it. -/
def inTurn : List (Move Request ℤ) :=
  [.spawn (.policy (.stop pressed)),.go 0,.go 0,.go 0,.go 0,
    .spawn (.policy (.set { drafted with policy := { drafted.policy with version := 2 } })),
    .env 7,.go 1,.go 1,.go 1,.go 1]

theorem policies_in_turn : letI := plainCrates
    Orderly (inForce {}) (stored (accessesOf {} inTurn)) ∧
      (stored (accessesOf {} inTurn)).map (fun w => (w.2.version,w.2.emergencyStop))=[(1,true),(2,false)] := by
  have hattended : letI := plainCrates
      Throughout (step system) Attended ⟨{},[]⟩ inTurn := by
    decide +kernel
  exact ⟨@policies_orderly plainCrates {} inTurn hattended,by decide +kernel⟩

end TradeGate.Execd

/-! What is proposed while execd is halted. -/
namespace TradeGate.Execd
open Js Threads Machine

/-- The policy in force halts execd. -/
def halted (s : App) : Bool := isHalted (inForce s)

/-- A proposal that read the policy counts on it: no halt comes before its row. -/
def haltCare : Care App Access where
  keeps l s s' := match l with
    | .findIntent _ _ | .insertIntent _ _ => halted s'=true → halted s=true
    | _ => True
  refl l s := by cases l <;> first | trivial | exact id
  trans l s s' s'' h h' := by
    cases l <;> first | trivial | exact fun hs => h (h' hs)

instance : (l : Access) → (s s' : App) → Decidable (haltCare.keeps l s s')
  | .findIntent _ _, s, s' | .insertIntent _ _, s, s' =>
    inferInstanceAs (Decidable (halted s'=true → halted s=true))
  | .loadPolicy _, _, _ | .setPolicy _ _, _, _ | .reportCorruption _ _, _, _ => .isTrue trivial
  | .getIntent _, _, _ | .rejectIntent _ _, _, _ | .publish _, _, _ | .answer _ _, _, _ => .isTrue trivial

theorem isHalted_currentPolicy (s : App) : isHalted s.currentPolicy=halted s := by
  unfold App.currentPolicy halted inForce
  cases s.db.policy <;> rfl

/-- A halt rejects every proposal. -/
theorem gate_of_halted (p : IntentProposeParams) {policy : ExecPolicy} (h : isHalted policy=true) :
    (gate p policy).2=some (.rejected,"gate_rejected") := by
  have hor : policy.mode=.haltAll ∨ policy.emergencyStop=true := by
    unfold isHalted at h
    rw [Bool.or_eq_true,decide_eq_true_eq] at h
    exact h.symm
  unfold gate
  rw [if_pos hor]

section
variable [Crates] {inv : App → Prop} {R : Access → App → App → Prop} {l : Access} {s s' : App}

/-- A row that an access leaves was there, or is rejected, or is a proposal's. -/
theorem Deed.rows (h : Deed inv R l s s') {i : Intent} (hi : i ∈ s'.db.intents) :
    i ∈ s.db.intents ∨ i.status=.rejected ∨ ∃ p s₀, Clear inv R p s₀.currentPolicy s₀ s ∧
      ((gate p s₀.currentPolicy).2=none ∨
        ∃ target name, (gate p s₀.currentPolicy).2=some (target,name) ∧ i.status=target) := by
  cases h with
  | load r => exact .inl hi
  | find p policy => exact .inl hi
  | get p => exact .inl hi
  | refuse _ _ _ _ => exact .inl hi
  | missed p i => exact .inl hi
  | publish evs => exact .inl hi
  | answer _ => exact .inl hi
  | report _ _ _ _ ht =>
    cases ht
    exact .inl hi
  | @setPolicy s₀ _ r policy _ _ _ _ _ ht =>
    obtain ⟨evs,hrun⟩ := run_policy r s₀.currentPolicy policy s.db
    rw [hrun] at ht
    cases ht
    exact .inl hi
  | reject _ _ _ _ hx =>
    obtain ⟨-,-,rfl⟩ := run_txReject hx
    obtain ⟨j,hj,rfl⟩ := List.mem_map.mp hi
    split
    · exact .inr (.inl rfl)
    · next hid => exact .inl (by simpa [hid] using hj)
  | @insert s₀ _ p now _ _ _ _ _ hc ht =>
    obtain ⟨-,-,rfl,hrow⟩ := run_txPropose ht
    rcases List.mem_append.mp hi with hi|hi
    · exact .inl hi
    · obtain rfl := List.mem_singleton.mp hi
      refine .inr (.inr ⟨p,s₀,hc,?_⟩)
      rcases hrow with ⟨hnone,-,-⟩|⟨target,name,hsome,-,rfl,-⟩
      · exact .inl hnone
      · exact .inr ⟨target,name,hsome,rfl⟩

end

section
variable [Crates]

def haltPact : Pact App Access :=
  haltCare.pact (Deed (fun _ => True) fun l s s' => True ∧ haltCare.keeps l s s')

/-- A proposal that is inserted under a halt has read the halt. -/
theorem Clear.halted {p : IntentProposeParams} {policy : ExecPolicy} {s₀ s : App}
    (h : Clear haltPact.inv haltPact.Relies p policy s₀ s) (hs : halted s=true) :
    Execd.halted s₀=true := by
  cases h with
  | noKey _ h => exact h.2 hs
  | free _ hr _ _ h => exact hr.2 (h.2 hs)

/-- While no halt comes between the policy that a proposal reads and its insertion, no intent is
stored or changed to anything but rejected under a halt, in every run of requests. -/
theorem none_after_halt (s : App) (ms : List (Move Request ℤ))
    (h : Throughout (step system) (Pact.Undisturbed haltCare system) ⟨s,[]⟩ ms) :
    Throughout (step system) (fun c m => Execd.halted c.state=true →
      ∀ i ∈ (step system c m).state.db.intents, i ∈ c.state.db.intents ∨ i.status=.rejected) ⟨s,[]⟩ ms := by
  have hrun := Pact.throughout (C := haltPact) (S := system) (fun _ _ _ => ⟨trivial,trivial⟩)
    (dispatch_meets fun _ _ _ h => h) (fun _ _ h => h) (.start trivial) h
  refine throughout_of_invariant (I := fun _ => True) (fun _ _ _ _ => trivial)
    (fun c m _ hm hh i hi => ?_) trivial hrun
  cases hl : c.label m with
  | none =>
    rcases step_of_noLabel (S := system) hl with hs|⟨e,-,hs⟩
    · rw [hs] at hi
      exact .inl hi
    · rw [hs] at hi
      exact .inl hi
  | some l =>
    rcases Deed.rows (hm.owes l hl) hi with hi|hi|⟨p,s₀,hc,hi⟩
    · exact .inl hi
    · exact .inr hi
    · -- the policy that the proposal read was a halt
      rw [gate_of_halted p (by rw [isHalted_currentPolicy]; exact hc.halted hh)] at hi
      rcases hi with hi|⟨target,name,hi,ht⟩
      · cases hi
      · cases hi
        exact .inr ht

end

/-! A proposal that read the policy before the halt. -/

/-- The user asks to cancel an order. -/
def withdrawal (key : Option String) : IntentProposeParams :=
  ⟨.main,.user,.rpc,none,none,none,key,.cancelOrder ⟨.usdmPerp,"BTCUSDT",⟨some "17",none⟩,none⟩,none⟩

/-- The stop goes in between the proposal's read and its insertion. -/
def overtaken : List (Move Request ℤ) :=
  [.spawn (.propose (withdrawal none)),.go 0,.spawn (.policy (.stop pressed)),.go 1,.go 1,.go 0]

theorem proposed_after_halt :
    ¬∀ (h : Crates) (s : App) (ms : List (Move Request ℤ)),
      Throughout (step (@system h)) (fun c m => halted c.state=true →
        ∀ i ∈ (step (@system h) c m).state.db.intents, i ∈ c.state.db.intents ∨ i.status=.rejected)
        ⟨s,[]⟩ ms := by
  intro h
  have hlast := h plainCrates {} overtaken
  have hwrong : letI := plainCrates
      ¬Throughout (step system) (fun c m => halted c.state=true →
        ∀ i ∈ (step system c m).state.db.intents, i ∈ c.state.db.intents ∨ i.status=.rejected)
        ⟨{},[]⟩ overtaken := by
    decide +kernel
  exact hwrong hlast

/-- The proposal reads the policy after the stop. -/
def rejectedByHalt : List (Move Request ℤ) :=
  [.spawn (.policy (.stop pressed)),.go 0,.go 0,.spawn (.propose (withdrawal none)),.go 0,.go 1,.go 1]

theorem rejected_after_halt : letI := plainCrates
    Throughout (step system) (fun c m => halted c.state=true →
      ∀ i ∈ (step system c m).state.db.intents, i ∈ c.state.db.intents ∨ i.status=.rejected)
      ⟨{},[]⟩ rejectedByHalt ∧
      (run (step system) ⟨{},[]⟩ rejectedByHalt).state.db.intents.map Intent.status=[.rejected] := by
  have hkept : letI := plainCrates
      Throughout (step system) (Pact.Undisturbed haltCare system) ⟨{},[]⟩ rejectedByHalt := by
    decide +kernel
  exact ⟨@none_after_halt plainCrates {} rejectedByHalt hkept,by decide +kernel⟩

end TradeGate.Execd
