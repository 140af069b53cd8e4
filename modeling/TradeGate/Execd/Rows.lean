import TradeGate.Execd.Deeds

/-! The rows of the intents: their ids and keys are unique, and a row keeps what was proposed. -/
namespace TradeGate.Execd
open Threads

/-- The row is of the same proposal as before. -/
structure SameProposal (i j : Intent) : Prop where
  intentId : j.intentId=i.intentId
  account : j.account=i.account
  principal : j.principal=i.principal
  surface : j.surface=i.surface
  idempotencyKey : j.idempotencyKey=i.idempotencyKey
  params : j.params=i.params

theorem SameProposal.refl (i : Intent) : SameProposal i i := ⟨rfl,rfl,rfl,rfl,rfl,rfl⟩

theorem SameProposal.trans {i j k : Intent} (h : SameProposal i j) (h' : SameProposal j k) :
    SameProposal i k where
  intentId := h'.intentId.trans h.intentId
  account := h'.account.trans h.account
  principal := h'.principal.trans h.principal
  surface := h'.surface.trans h.surface
  idempotencyKey := h'.idempotencyKey.trans h.idempotencyKey
  params := h'.params.trans h.params

theorem SameProposal.hasKey {i j : Intent} (h : SameProposal i j) (principal : Principal) (key : String) :
    Store.hasKey principal key j=Store.hasKey principal key i := by
  unfold Store.hasKey
  rw [h.principal,h.idempotencyKey]

/-- The row of a proposal is its own, whatever its gate said. -/
theorem sameProposal_gated (i : Intent) (gs : List GateRejection) (target : IntentStatus) (now : ℤ) :
    SameProposal i (gated i gs target now) := ⟨rfl,rfl,rfl,rfl,rfl,rfl⟩

/-- Rows and events stay. -/
structure Grows (s s' : App) : Prop where
  rows : ∀ i ∈ s.db.intents, ∃ j ∈ s'.db.intents, SameProposal i j
  events : s.db.events <+: s'.db.events

theorem Grows.refl (s : App) : Grows s s := ⟨fun i hi => ⟨i,hi,.refl i⟩,List.prefix_rfl⟩

theorem Grows.trans {s s' s'' : App} (h : Grows s s') (h' : Grows s' s'') : Grows s s'' where
  rows i hi := by
    obtain ⟨j,hj,hij⟩ := h.rows i hi
    obtain ⟨k,hk,hjk⟩ := h'.rows j hj
    exact ⟨k,hk,hij.trans hjk⟩
  events := h.events.trans h'.events

/-- The state after the rows and the events stayed. -/
theorem Grows.of_eq {s s' : App} (hi : s'.db.intents=s.db.intents)
    (he : s.db.events <+: s'.db.events) : Grows s s' :=
  ⟨fun i h => ⟨i,by rwa [hi],.refl i⟩,he⟩

/-- What goes to the bus is not of the store. -/
theorem Grows.bus (s : App) (evs : List ExecEvent) : Grows s { s with bus := s.bus++evs } :=
  .of_eq rfl List.prefix_rfl

variable [Crates]

/-- The constraints of the table: ids and keys are unique, and no id is still to be drawn. -/
structure Sound (s : App) : Prop where
  ids : (s.db.intents.map Intent.intentId).Nodup
  keys : ∀ i ∈ s.db.intents, ∀ j ∈ s.db.intents, ∀ principal key, Store.hasKey principal key i=true →
    Store.hasKey principal key j=true → i=j
  fresh : ∀ i ∈ s.db.intents, ∀ n, s.drawn ≤ n → Crates.newUuid n ≠ i.intentId

/-- An empty table is sound. -/
theorem Sound.empty (s : App) (h : s.db.intents=[]) : Sound s where
  ids := by simp [h]
  keys i hi := by simp [h] at hi
  fresh i hi := by simp [h] at hi

theorem Sound.eq_of_id {s : App} (h : Sound s) {i j : Intent} (hi : i ∈ s.db.intents)
    (hj : j ∈ s.db.intents) (hij : i.intentId=j.intentId) : i=j :=
  List.inj_on_of_nodup_map h.ids hi hj hij

/-- The state keeps its rows. -/
theorem Sound.of_eq {s s' : App} (h : Sound s) (hi : s'.db.intents=s.db.intents)
    (hd : s.drawn ≤ s'.drawn) : Sound s' where
  ids := by rw [hi]; exact h.ids
  keys := by rw [hi]; exact h.keys
  fresh i hi' n hn := h.fresh i (by rwa [hi] at hi') n (hd.trans hn)

/-- A row is replaced by one of the same proposal. -/
theorem Sound.update {s s' : App} (h : Sound s) {i : Intent}
    (hi : ∀ j ∈ s.db.intents, Store.hasId i.intentId j=true → SameProposal j i)
    (hrows : s'.db.intents=s.db.intents.map fun j => if Store.hasId i.intentId j then i else j)
    (hd : s.drawn ≤ s'.drawn) (he : s.db.events <+: s'.db.events) : Sound s' ∧ Grows s s' := by
  have hsame : ∀ j ∈ s.db.intents, SameProposal j (if Store.hasId i.intentId j then i else j) := by
    intro j hj
    split
    · next hid => exact hi j hj hid
    · exact .refl j
  refine ⟨⟨?_,?_,?_⟩,⟨fun j hj => ⟨_,?_,hsame j hj⟩,he⟩⟩
  · have hids : s'.db.intents.map Intent.intentId=s.db.intents.map Intent.intentId := by
      rw [hrows,List.map_map]
      exact List.map_congr_left fun j hj => (hsame j hj).intentId
    rw [hids]
    exact h.ids
  · intro a ha b hb principal key hka hkb
    rw [hrows] at ha hb
    obtain ⟨j,hj,rfl⟩ := List.mem_map.mp ha
    obtain ⟨k,hk,rfl⟩ := List.mem_map.mp hb
    rw [(hsame j hj).hasKey] at hka
    rw [(hsame k hk).hasKey] at hkb
    rw [h.keys j hj k hk principal key hka hkb]
  · intro a ha n hn
    rw [hrows] at ha
    obtain ⟨j,hj,rfl⟩ := List.mem_map.mp ha
    rw [(hsame j hj).intentId]
    exact h.fresh j hj n (hd.trans hn)
  · rw [hrows]
    exact List.mem_map_of_mem hj

/-- A row is added under the id that is drawn and under a free key. -/
theorem Sound.insert {s s' : App} (h : Sound s) {i : Intent} (hid : i.intentId=Crates.newUuid s.drawn)
    (hkey : ∀ principal key, Store.hasKey principal key i=true →
      s.db.intents.any (Store.hasKey principal key)=false)
    (hrows : s'.db.intents=s.db.intents++[i]) (hd : s'.drawn=s.drawn+1)
    (he : s.db.events <+: s'.db.events) : Sound s' ∧ Grows s s' := by
  refine ⟨⟨?_,?_,?_⟩,⟨fun j hj => ⟨j,?_,.refl j⟩,he⟩⟩
  · rw [hrows,List.map_append,List.map_singleton]
    refine h.ids.append (List.nodup_singleton _) (List.disjoint_singleton.mpr fun hm => ?_)
    obtain ⟨j,hj,hji⟩ := List.mem_map.mp hm
    exact h.fresh j hj s.drawn le_rfl (by rw [← hid,hji])
  · intro a ha b hb principal key hka hkb
    rw [hrows,List.mem_append,List.mem_singleton] at ha hb
    have hfree : ∀ j ∈ s.db.intents, Store.hasKey principal key i=true →
        Store.hasKey principal key j=true → False := fun j hj hki hkj =>
      List.any_eq_false.mp (hkey principal key hki) j hj hkj
    rcases ha with ha|rfl
    · rcases hb with hb|rfl
      · exact h.keys a ha b hb principal key hka hkb
      · exact (hfree a ha hkb hka).elim
    · rcases hb with hb|rfl
      · exact (hfree b hb hka hkb).elim
      · rfl
  · intro a ha n hn hna
    rw [hd] at hn
    rw [hrows,List.mem_append,List.mem_singleton] at ha
    rcases ha with ha|rfl
    · exact h.fresh a ha n (by omega) hna
    · rw [hid] at hna
      exact absurd (Crates.newUuid_injective hna) (by omega)
  · rw [hrows]
    exact List.mem_append_left _ hj

/-- What is inserted is the proposal's row, under the drawn id and a free key. -/
theorem inserting_ok {p : IntentProposeParams} {policy : ExecPolicy} {now : ℤ} {s : App} {i : Intent}
    {evs : List ExecEvent} {db : Db} (h : inserting p policy now s=.ok ((i,evs),db)) :
    SameProposal (newIntent p (Crates.newUuid s.drawn) now) i ∧
      (∀ principal key, Store.hasKey principal key i=true →
        s.db.intents.any (Store.hasKey principal key)=false) ∧
      db={ s.db with intents := s.db.intents++[i], events := s.db.events++evs, seq := s.db.seq+evs.length } := by
  obtain ⟨-,hkey,hdb,hrow⟩ := run_txPropose h
  have hsame : SameProposal (newIntent p (Crates.newUuid s.drawn) now) i := by
    rcases hrow with ⟨-,rfl,-⟩|⟨target,name,-,-,rfl,-⟩
    · exact .refl _
    · exact sameProposal_gated _ _ _ _
  refine ⟨hsame,fun principal key hk => ?_,hdb⟩
  rw [hsame.hasKey] at hk
  unfold Store.hasKey at hk
  obtain ⟨hp,hk⟩ := of_decide_eq_true hk
  rw [hk] at hkey
  rw [← hp]
  simpa using hkey

/-- An access keeps the table sound, and rows and events stay. -/
theorem Deed.grows {R : Access → App → App → Prop} {l : Access} {s s' : App}
    (hR : ∀ l s s', R l s s' → Grows s s') (hs : Sound s) (h : Deed Sound R l s s') :
    Sound s' ∧ Grows s s' := by
  cases h with
  | load r => exact ⟨hs,.refl s⟩
  | find p policy => exact ⟨hs,.refl s⟩
  | get p => exact ⟨hs,.refl s⟩
  | refuse _ _ _ _ => exact ⟨hs,.refl s⟩
  | missed p i => exact ⟨hs,.refl s⟩
  | answer _ => exact ⟨hs,.refl s⟩
  | publish evs => exact ⟨hs.of_eq rfl le_rfl,.of_eq rfl List.prefix_rfl⟩
  | report _ _ _ _ ht =>
    cases ht
    exact ⟨hs.of_eq rfl le_rfl,.of_eq rfl (List.prefix_append _ _)⟩
  | @setPolicy s₀ _ r policy _ _ _ _ _ ht =>
    obtain ⟨evs,hrun⟩ := run_policy r s₀.currentPolicy policy s.db
    rw [hrun] at ht
    cases ht
    exact ⟨hs.of_eq rfl le_rfl,.of_eq rfl (List.prefix_append _ _)⟩
  | insert _ _ _ ht =>
    obtain ⟨hsame,hkey,rfl⟩ := inserting_ok ht
    exact hs.insert hsame.intentId hkey rfl rfl (List.prefix_append _ _)
  | @reject s₀ _ p i now _ _ h₀ hf ht hr hx =>
    obtain ⟨-,-,rfl⟩ := run_txReject hx
    refine hs.update (fun j hj hid => ?_) rfl le_rfl (List.prefix_append _ _)
    -- the row of the id is the one that was read, as far as the proposal goes
    obtain ⟨k,hk,hik⟩ := (hR _ _ _ hr).rows i (List.mem_of_find?_eq_some hf)
    have hjk : j=k := hs.eq_of_id hj hk (by
      rw [hik.intentId]
      exact of_decide_eq_true hid)
    subst hjk
    exact ⟨hik.intentId.symm,hik.account.symm,hik.principal.symm,hik.surface.symm,
      hik.idempotencyKey.symm,hik.params.symm⟩

/-- Every access of a request is a deed on a sound table, on which rows and events stay. -/
def rowsPact (K : Care App Access) : Pact App Access where
  toCare := K
  owes := Deed Sound fun l s s' => Grows s s' ∧ K.keeps l s s'
  inv := Sound
  goes := Grows
  goes_refl := .refl
  goes_trans _ _ _ := .trans
  onward _ _ _ hs h := h.grows (fun _ _ _ hr => hr.1) hs

theorem rowsPact_calm (K : Care App Access) : (rowsPact K).Calm system :=
  fun _ _ hs => ⟨hs.of_eq rfl le_rfl,.of_eq rfl List.prefix_rfl⟩

/-- In a run from a sound store whose moves disturb no request every access is a deed. -/
theorem rowsPact_run {K : Care App Access} {P : Config App Access RpcError → Move Request ℤ → Prop}
    (hP : ∀ c m, P c m → Pact.Undisturbed K system c m) {s : App} (hs : Sound s)
    {ms : List (Move Request ℤ)} (h : Machine.Throughout (step system) P ⟨s,[]⟩ ms) :
    Machine.Throughout (step system) (Pact.Kept (rowsPact K) system P) ⟨s,[]⟩ ms :=
  Pact.throughout (C := rowsPact K) (rowsPact_calm K) (dispatch_meets fun _ _ _ h => h) hP (.start hs) h

end TradeGate.Execd
