import TradeGate.Coop.Guarantee
import TradeGate.Entry.Freeze
import TradeGate.Entry.InFlight

/-! A thread whose entry is on its way is not ended by a close, a review, an approval, a rejection or
a pass, in the runs in which those that do not look for entries on their way find none. -/
namespace TradeGate
open Coop Contract

/-- An account pass. -/
def Operation.isPass : Operation → Prop
  | .poll => True
  | _ => False

/-- The symbol of a manual close. -/
def Operation.shuts : Operation → Option String
  | .manualOrder req true => some req.symbol
  | _ => none

/-- The threads that the operation may end without a look at their entries are not in flight where it
starts; for a pass during an emergency stop no thread waits for its entry at all. -/
def Operation.sparesFlights (s : Runtime) : Operation → Prop
  | .poll => s.halted=true → s.allSettled
  | .approveIntent intentId | .approve intentId _ _ => ∀ i ∈ s.intent intentId, i.kind=.close →
    ∀ id ∈ i.threadId, ¬s.inFlightAt id
  | .rejectIntent intentId => ∀ i ∈ s.intent intentId, ∀ id ∈ i.threadId, ¬s.inFlightAt id
  | .review threadId .invalidate => ¬s.inFlightAt threadId
  | .manualOrder req true => s.clearOf req.symbol
  | _ => True

/-- What a suspended pass needs is that no emergency stop begins, and that during one no thread begins
to wait for its entry; a manual close needs that no entry of its symbol sets out. -/
structure LeavesFlights (o : Operation) (s s' : Runtime) : Prop where
  pass : o.isPass → s'.halted=true → s.halted=true ∧ (s.allSettled → s'.allSettled)
  shut : ∀ symbol ∈ o.shuts, s.clearOf symbol → s'.clearOf symbol

/-- A step starts operations that spare the threads in flight, and leaves the passes and manual closes
under way what they rely on. -/
structure Spared [Host] (c : Config Runtime Unit Writer Call Answer String Operation)
    (a : Action Runtime Writer Call Answer String Operation)
    (c' : Config Runtime Unit Writer Call Answer String Operation) : Prop where
  starts : ∀ o ∈ a.op, a.others=c.tasks → o.sparesFlights c.state
  others : ∀ t ∈ a.others, LeavesFlights t.op c.state c'.state

/-- Writes let no thread fall back and end none in flight. -/
def Operation.flightDuty (o : Operation) : Guarantee Runtime Unit Writer Call Answer where
  may _ _ _ := True
  write s _ l s' := Watches s l s'
  serve _ _ _ _ _ := True
  waits _ p p' := Advances p.1 p'.1 ∧ LeavesFlights o p.1 p'.1
  holds _ _ p p' := Advances p.1 p'.1 ∧ LeavesFlights o p.1 p'.1

section
variable {o : Operation} {send : Unit → Call → Unit} {s s' : Runtime} {w w' : Unit}

theorem LeavesFlights.refl (s : Runtime) : LeavesFlights o s s :=
  ⟨fun _ hh => ⟨hh,id⟩,fun _ _ h => h⟩

theorem LeavesFlights.trans {s'' : Runtime} (h : LeavesFlights o s s') (h' : LeavesFlights o s' s'') :
    LeavesFlights o s s'' := by
  refine ⟨fun hp hh => ?_,fun symbol hs hc => h'.shut symbol hs (h.shut symbol hs hc)⟩
  obtain ⟨hh',hs'⟩ := h'.pass hp hh
  obtain ⟨hh,hs⟩ := h.pass hp hh'
  exact ⟨hh,hs' ∘ hs⟩

theorem star_flights {p p' : Runtime×Unit} (h : Relation.ReflTransGen
      (fun p p' : Runtime×Unit => Advances p.1 p'.1 ∧ LeavesFlights o p.1 p'.1) p p') :
    Advances p.1 p'.1 ∧ LeavesFlights o p.1 p'.1 := by
  induction h with
  | refl => exact ⟨.refl _,.refl _⟩
  | tail _ h ih => exact ⟨ih.1.trans h.1,ih.2.trans h.2⟩

/-- The copies an operation may store are kept as its duty is. -/
theorem flightDuty_back {q : Call} {r : Answer q}
    (h : (o.flightDuty.contract send fun _ _ => True).back s w q r s' w') :
    (watched Unit o.isPass o.shuts).back s w q r s' w' := by
  obtain ⟨-,⟨s₁,w₁,w₂,h₁,-,h₂⟩,-⟩ := h
  obtain ⟨ha₁,hl₁⟩ := star_flights h₁
  obtain ⟨ha₂,hl₂⟩ := star_flights h₂
  have hl := hl₁.trans hl₂
  exact ⟨ha₁.trans ha₂,hl.pass,hl.shut⟩

theorem Operation.power_of_watched (o : Operation) (h : o.isPass ∨ o.shuts.isSome) :
    o.power=.ordinary := by
  cases o with
  | poll => rfl
  | manualOrder req close =>
    cases close
    · rcases h with h|h
      · exact h.elim
      · cases h
    · rfl
  | _ => exact h.elim (fun h => h.elim) nofun

/-- An operation that spares the flights where it starts may do what it does with the threads. -/
theorem Operation.admitted_of_spares (o : Operation) (h : o.sparesFlights s) :
    o.Admitted (watched Unit o.isPass o.shuts) s w := by
  have hheld : ∀ {id : String} {t : StrategyThread}, ¬o.isPass → s.thread id=some t →
      (watched Unit o.isPass o.shuts).held t s w := fun {id t} ho ht => by
    refine ⟨.stored ?_,fun hp => absurd hp ho⟩
    rw [Runtime.id_of_thread ht]
    exact ht
  cases o with
  | poll => exact ⟨fun _ => trivial,fun t s w _ ht hh _ => ht.2 trivial hh⟩
  | executeOpen threadId intentId => exact fun t i ht _ _ => ⟨hheld nofun ht,trivial⟩
  | approveIntent intentId =>
    exact fun i t hi ht hthread _ => ⟨hheld nofun hthread,fun hk _ hf => h i hi hk t.id ht ⟨t,hthread,hf⟩⟩
  | approve intentId nonce by_ =>
    exact fun i t hi ht hthread _ => ⟨hheld nofun hthread,fun hk _ hf => h i hi hk t.id ht ⟨t,hthread,hf⟩⟩
  | rejectIntent intentId => exact fun i t hi ht hthread _ hf => h i hi t.id ht ⟨t,hthread,hf⟩
  | closeThread threadId reason => exact fun t ht _ => hheld nofun ht
  | review threadId action =>
    refine fun t ht _ => ⟨hheld nofun ht,?_⟩
    rintro rfl - hf
    exact h ⟨t,ht,hf⟩
  | manualOrder req close =>
    refine ⟨fun _ _ => trivial,?_⟩
    rintro rfl s w hi t ht hs - hf
    exact hi.2 req.symbol rfl t (Runtime.mem_openThreads ht).1 hs hf
  | halt => exact fun _ => trivial
  | adoptPosition | openThreadFromProposal | scan => exact fun _ _ => trivial
  | _ => trivial

variable [Host]

theorem Operation.program_watches (o : Operation) (h : o.sparesFlights s) :
    o.flightDuty.Meets send (fun _ _ => True) o.program s w := by
  have hinv : (watched Unit o.isPass o.shuts).inv s w := by
    cases o with
    | poll => exact ⟨fun _ => h,nofun⟩
    | manualOrder req close =>
      cases close
      · exact ⟨nofun,nofun⟩
      · refine ⟨nofun,fun symbol hs => ?_⟩
        cases hs
        exact h
    | _ => exact ⟨nofun,nofun⟩
  refine Meets.weaken ((o.program_keeps (watched_laws o.power_of_watched) hinv
    (o.admitted_of_spares h)).mono fun _ _ _ _ => trivial) (fun _ _ _ _ => trivial)
    (fun _ _ _ _ h => h.watches) (fun _ _ _ _ _ _ h => flightDuty_back h) fun _ _ _ => trivial

theorem flights_govern :
    Guarantee.Governs Operation.flightDuty (fun _ _ => True) gateway Spared where
  start o s w ts c' _ ha := o.program_watches (ha.starts o rfl rfl)
  serve _ _ _ _ _ _ _ _ _ _ _ _ := trivial
  inv _ _ _ _ _ _ _ := trivial
  others c a c' _ hs ha hw t ht := by
    have hadv : Advances c.state c'.state := by
      obtain ⟨o,ho,hc,-⟩|⟨-,-,-,he,-⟩|⟨-,-,-,ms,hms⟩ := hs.kind
      · exact (hc.keeps (fun s : Runtime => Advances c.state s)
          (fun x hx h => h.trans (hw.writes o ho x hx).advances) (.refl _)).1
      · exact he ▸ .refl _
      · exact hms ▸ .later _ ms
    left
    have hl := ha.others t ht
    cases t.susp <;> exact ⟨hadv,hl⟩

/-- In a run that spares the threads in flight, only openings and emergency stops end one. -/
theorem flight_not_ended {s₀ : Runtime}
    {c c' : Config Runtime Unit Writer Call Answer String Operation}
    {a : Action Runtime Writer Call Answer String Operation} {x : Write Runtime Writer} {id : String}
    (h : Run gateway Spared ⟨s₀,(),[]⟩ c) (hs : Step gateway c a c') (ha : Spared c a c')
    (hx : x ∈ a.writes) (hl : x.label ≠ .open ∧ x.label ≠ .propose ∧ x.label ≠ .halt)
    (hf : x.pre.inFlightAt id) : ¬x.post.endedAt id := by
  have hc := flights_govern.run ⟨trivial,by simp⟩ h
  obtain ⟨o,hop,-⟩|⟨-,hw,-⟩|⟨-,hw,-⟩ := hs.kind
  · exact ((hc.owed flights_govern hs ha).writes o hop x hx).spares hl id hf
  · rw [hw] at hx
    cases hx
  · rw [hw] at hx
    cases hx

end

section scripts

/-- The entry of an order of the panel is on its way. -/
def flightMoves : List (Move Runtime Unit Call Answer Operation) :=
  panelMoves "BTCUSDT" false++[.resume 0]

/-- Meanwhile an operation starts, and its first request is answered. -/
def meanwhile (o : Operation) : List (Move Runtime Unit Call Answer Operation) :=
  flightMoves++[.start o,.serve 1 flatAnswer id]

theorem timely_meanwhile (o : Operation) : (meanwhile o).Forall Timely :=
  List.forall_append.mpr ⟨List.forall_append.mpr ⟨timely_panelMoves _ _,trivial⟩,trivial,trivial⟩

/-- What the second operation does next. -/
def meanwhileAct (o : Operation) : Action Runtime Writer Call Answer String Operation :=
  letI := oneDigest
  (configAfter (meanwhile o)).act gateway (.resume 1)

/-- A pass, or an opening of the panel. -/
def Operation.plain : Operation → Bool
  | .poll | .manualOrder _ false => true
  | _ => false

/-- Only passes and openings of the panel, and no emergency stop. -/
def plainly [Host] (c : Config Runtime Unit Writer Call Answer String Operation)
    (a : Action Runtime Writer Call Answer String Operation)
    (c' : Config Runtime Unit Writer Call Answer String Operation) : Bool :=
  !c.state.halted && !c'.state.halted && a.op.all Operation.plain && a.others.all fun t => t.op.plain

theorem spared_of_plainly [Host] {c c' : Config Runtime Unit Writer Call Answer String Operation}
    {a : Action Runtime Writer Call Answer String Operation} (h : plainly c a c'=true) :
    Spared c a c' := by
  simp only [plainly,Bool.and_eq_true,Bool.not_eq_true',Option.all_eq_true,List.all_eq_true] at h
  obtain ⟨⟨⟨hh,hh'⟩,hop⟩,hts⟩ := h
  refine ⟨fun o ho _ => ?_,fun t ht => ⟨fun _ hn => ?_,fun symbol hs => ?_⟩⟩
  · have hp := hop o ho
    cases o with
    | poll => exact fun hn => absurd hn (by rw [hh]; nofun)
    | manualOrder req close =>
      cases close
      · trivial
      · cases hp
    | _ => cases hp
  · rw [hh'] at hn
    cases hn
  · have hp := hts t ht
    generalize t.op=o at hp hs
    cases o with
    | manualOrder req close =>
      cases close
      · cases hs
      · cases hp
    | _ => cases hs

end scripts

theorem flight_not_ended_by_pass : letI := oneDigest
    ∃ x ∈ (meanwhileAct .poll).writes, x.label=.account ∧ x.pre.inFlightAt "thr-0" ∧
      ¬x.post.endedAt "thr-0" := by
  let := oneDigest
  have hlegal := gateway_legalPlay (timely_meanwhile .poll)
    ⟨Runtime.fresh .demo someWorkflow 100000000,(),[]⟩
  have h : Run gateway Spared _ (configAfter (meanwhile .poll)) :=
    .of_along .refl hlegal (by decide +kernel) fun _ _ _ => spared_of_plainly
  have hs : Step gateway (configAfter (meanwhile .poll)) _ _ :=
    .of_applies (m := .resume 1) trivial (by decide +kernel)
  obtain ⟨x,hx,hl,hf⟩ : ∃ x ∈ (meanwhileAct .poll).writes, x.label=.account ∧
      x.pre.inFlightAt "thr-0" := by decide +kernel
  exact ⟨x,hx,hl,hf,flight_not_ended h hs (spared_of_plainly (by decide +kernel)) hx
    (by rw [hl]; decide) hf⟩

/-- A manual close ends a thread whose entry is on its way. -/
theorem flight_ended_by_manual_close : ¬∀ (h : Host) (backend : Backend) (workflow : Workflow)
    (now : ℕ) (c c' : Config Runtime Unit Writer Call Answer String Operation)
    (a : Action Runtime Writer Call Answer String Operation) (x : Write Runtime Writer) (id : String),
      Run (@gateway h) anyStep ⟨Runtime.fresh backend workflow now,(),[]⟩ c →
        Step (@gateway h) c a c' → x ∈ a.writes → x.label ≠ .open ∧ x.label ≠ .propose ∧ x.label ≠ .halt →
          x.pre.inFlightAt id → ¬x.post.endedAt id := by
  intro hall
  let := oneDigest
  let o : Operation := .manualOrder (panelOrder "BTCUSDT") true
  have h : Run gateway anyStep _ (configAfter (meanwhile o)) :=
    .of_play .refl (gateway_legalPlay (timely_meanwhile o) _)
  have hs : Step gateway (configAfter (meanwhile o)) _ _ :=
    .of_applies (m := .resume 1) trivial (by decide +kernel)
  obtain ⟨x,hx,hl,hf,he⟩ : ∃ x ∈ (meanwhileAct (.manualOrder (panelOrder "BTCUSDT") true)).writes,
      x.label=.cancelEntry ∧ x.pre.inFlightAt "thr-0" ∧ x.post.endedAt "thr-0" := by decide +kernel
  exact hall oneDigest _ _ _ _ _ _ x "thr-0" h hs hx (by rw [hl]; decide) hf he

end TradeGate
