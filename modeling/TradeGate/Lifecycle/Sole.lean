import TradeGate.Coop.Going
import TradeGate.Custody.Plans
import TradeGate.Lifecycle.Terminal

/-! At most one open thread of a backend has a symbol.  Proposals check this in the burst that stores
their thread; an adoption checks before it waits for the account. -/
namespace TradeGate
open Coop Contract

namespace Runtime

/-- No two open threads are of the same backend and symbol. -/
def sole (s : Runtime) : Prop := ∀ t ∈ s.threads.rows, ∀ u ∈ s.threads.rows, t.isOpen → u.isOpen →
  t.backend=u.backend → t.symbol=u.symbol → t.id=u.id

/-- The list of open threads is not cut off. -/
def roomy (s : Runtime) : Prop :=
  (s.threads.rows.filter fun t : StrategyThread => t.isOpen ∧ t.backend=some s.backend).length ≤ 200

/-- An open thread of the backend has the symbol. -/
def occupied (s : Runtime) (backend : Option Backend) (symbol : String) : Prop :=
  ∃ u ∈ s.threads.rows, u.isOpen ∧ u.backend=backend ∧ u.symbol=symbol

instance (s : Runtime) : Decidable s.sole :=
  inferInstanceAs (Decidable (∀ t ∈ s.threads.rows, ∀ u ∈ s.threads.rows, _))

instance (s : Runtime) : Decidable s.roomy := inferInstanceAs (Decidable (_ ≤ 200))

instance (s : Runtime) (backend : Option Backend) (symbol : String) :
    Decidable (s.occupied backend symbol) :=
  inferInstanceAs (Decidable (∃ u ∈ s.threads.rows, _))

theorem mem_openThreads_of_roomy {s : Runtime} (h : s.roomy) {t : StrategyThread}
    (ht : t ∈ s.threads.rows) (ho : t.isOpen) (hb : t.backend=some s.backend) : t ∈ s.openThreads := by
  unfold openThreads
  rw [List.take_of_length_le]
  · rw [List.mem_insertionSort]
    simp [ht,ho,hb]
  · rw [List.length_insertionSort]
    exact h

theorem mem_rows_saveThread {s : Runtime} {t u : StrategyThread} (h : t ∈ (s.saveThread u).threads.rows) :
    t=u ∨ t ∈ s.threads.rows ∧ t.id ≠ u.id := by
  have ht := thread_of_mem h
  rw [thread_saveThread] at ht
  split at ht
  · exact .inl (Option.some.inj ht).symm
  · next hid => exact .inr ⟨Keyed.Table.mem_of_lookup ht,fun h => hid h.symm⟩

/-- A thread may be stored where no other open thread is of its backend and symbol. -/
theorem sole_saveThread {s : Runtime} {u : StrategyThread} (h : s.sole) (hu : u.isOpen →
    ∀ v ∈ s.threads.rows, v.isOpen → v.backend=u.backend → v.symbol=u.symbol → v.id=u.id) :
    (s.saveThread u).sole := by
  intro t ht v hv hto hvo hb hsym
  rcases mem_rows_saveThread ht with rfl|⟨ht',-⟩ <;> rcases mem_rows_saveThread hv with rfl|⟨hv',-⟩
  · rfl
  · exact (hu hto v hv' hvo hb.symm hsym.symm).symm
  · exact hu hvo t ht' hto hb hsym
  · exact h t ht' v hv' hto hvo hb hsym

theorem sole_congr {s s' : Runtime} (h : s'.threads=s.threads) : s'.sole ↔ s.sole := by
  unfold sole
  rw [h]

end Runtime

/-- The write stores a new thread. -/
def Births (x : Write Runtime Writer) (t : StrategyThread) : Prop :=
  x.pre.thread t.id=none ∧ x.post.thread t.id=some t

/-- No thread comes back from its end; a new thread is stored only while the list of open threads is
not cut off, and an adopted one only while no open thread is of its backend and symbol. -/
structure Spaced [Host] (c : Config Runtime Unit Writer Call Answer String Operation)
    (a : Action Runtime Writer Call Answer String Operation)
    (c' : Config Runtime Unit Writer Call Answer String Operation) : Prop where
  spared : ∀ id, endsSpared id c a c'
  room : ∀ x ∈ a.writes, ∀ t, Births x t → x.pre.roomy
  adopts : ∀ x ∈ a.writes, ∀ t, Births x t → t.status=.inPosition → ¬x.pre.occupied t.backend t.symbol

section
variable {s s' : Runtime} {w : Unit} {p : Power} {l : Writer} {t u y : StrategyThread} [Host]

omit [Host] in
/-- A record of a stored open thread may be stored. -/
theorem sole_of_stored (h : s.sole) (hr : Regular s) (hy : s.thread u.id=some y) (hp : u.plan=y.plan)
    (he : s.endedAt u.id → u.ended) : (s.saveThread u).sole := by
  refine Runtime.sole_saveThread h fun hu v hv hvo hb hsym => ?_
  have hyo : y.isOpen := by
    refine (hr _ y hy).resolve_right fun hend => ?_
    exact Runtime.not_ended_of_open hu (he ((Runtime.endedAt_of_thread hy).mpr hend))
  have hid := h v hv y (Keyed.Table.mem_of_lookup hy) hvo hyo (hb.trans (congrArg Plan.backend hp))
    (hsym.trans (congrArg Plan.symbol hp))
  exact hid.trans (Runtime.id_of_thread hy)

/-- A write that takes no thread back from its end, and stores a new one only where there is room for
it, leaves one open thread for each backend and symbol. -/
theorem Custody.Stroke.sole {x : Write Runtime Writer} (h : (planned Unit none).Stroke p x.label x.pre w x.post)
    (hr : Regular x.pre) (hs : x.pre.sole) (hend : ∀ id, x.pre.endedAt id → x.post.endedAt id)
    (hroom : ∀ t, Births x t → x.pre.roomy)
    (hadopt : ∀ t, Births x t → t.status=.inPosition → ¬x.pre.occupied t.backend t.symbol) :
    x.post.sole := by
  obtain ⟨l,s,s'⟩ := x
  dsimp only at h hr hs hend hroom hadopt ⊢
  have hsave : ∀ {t u : StrategyThread}, OfStored t s → u.plan=t.plan →
      s'.threads=(s.saveThread u).threads → s'.sole := by
    rintro t u ⟨y,hy,hyp⟩ hp hst
    have hid : u.id=t.id := congrArg Plan.id hp
    rw [Runtime.sole_congr hst]
    refine sole_of_stored hs hr (hid ▸ hy) (hp.trans hyp.symm) fun he => ?_
    have he' := hend u.id he
    rwa [Runtime.endedAt_congr hst,Runtime.endedAt_saveThread,if_pos rfl] at he'
  have hborn : ∀ {t : StrategyThread}, s.thread t.id=none → s'.threads=(s.saveThread t).threads →
      Births ⟨l,s,s'⟩ t := fun {t} hn hst => by
    refine ⟨hn,?_⟩
    show s'.thread t.id=some t
    rw [thread_congr hst]
    exact Runtime.thread_saveThread_self s t
  cases h with
  | deed _ hd =>
    cases hd.threads with
    | same h => exact (Runtime.sole_congr h).mpr hs
    | jot t ids ht h => exact hsave (u := { t with intentIds := ids }) (OfStored.stored ht) rfl h
    | edit t u ht he h => exact hsave ht.2.1 he.plan h
    | create t hc h =>
      have hno := hadopt t (hborn hc.unborn h) (congrArg Progress.status hc.progress)
      rw [Runtime.sole_congr h]
      exact Runtime.sole_saveThread hs fun _ v hv hvo hb hsym => absurd ⟨v,hv,hvo,hb,hsym⟩ hno
    | reject t u ht plan _ _ _ _ _ h => exact hsave (OfStored.stored ht) plan h
  | proposes t _ _ hc h =>
    subst h
    refine Runtime.sole_saveThread hs fun _ v hv hvo hb hsym => ?_
    exact absurd ⟨v,Runtime.mem_openThreads_of_roomy (hroom t (hborn hc.unborn rfl)) hv hvo
      (hb.trans hc.backend),hsym⟩ hc.alone
  | draws s₀ t i _ _ _ hs₀ hd =>
    obtain ⟨ids,hids⟩ := hd.thread
    have ht : s.thread t.id=some t := by
      rw [hs₀]
      exact Runtime.thread_saveThread_self s₀ t
    exact hsave (u := { t with intentIds := ids }) (OfStored.stored ht) rfl (by rw [hs₀]; exact hids)
  | takes t u _ _ _ ht _ hm h => exact hsave ht.2.1 hm.plan (congrArg Runtime.threads h)
  | approves s₀ t u i j _ _ _ _ _ _ _ _ _ _ h => exact (Runtime.sole_congr (congrArg Runtime.threads h)).mpr hs

/-- Plans are kept, whatever the operations do. -/
def plansGo : Going Runtime where
  inv := Regular
  goes := PlansKept
  refl := .refl
  trans := .trans

theorem plansGo_carries (ok : Config Runtime Unit Writer Call Answer String Operation →
    Action Runtime Writer Call Answer String Operation →
    Config Runtime Unit Writer Call Answer String Operation → Prop) :
    plansGo.Carries (fun o => (planned Unit none).contract o.power) gateway ok where
  start o s w ts c' hi _ := by
    have hinv : (planned Unit none).inv s w := ⟨hi,nofun⟩
    refine (o.program_keeps planned_free_laws hinv ?_).mono fun _ _ _ h => h.1
    exact o.admitted_of_unwatched (fun hw => hw) (fun _ => trivial) (fun t ht ho => ⟨.inl ho,.stored ht,nofun⟩)
      fun _ _ _ _ _ _ _ _ => trivial
  write o s w l s' h := h.plansKept
  may o s w q h := h.1.1
  quit o s w h := h.1
  back o s w q r s' w' _ hi hg := ⟨hg,hi,nofun⟩
  drift := by
    rintro s w s' w' hi ⟨ms,rfl⟩
    exact ⟨hi,.of_threads rfl⟩

/-- Every operation under way keeps the plans, and takes no thread back from its end. -/
structure Tidy (c : Config Runtime Unit Writer Call Answer String Operation) : Prop where
  plans : plansGo.Kept (fun o => (planned Unit none).contract o.power) c
  ends : ∀ id, Guarantee.Holds (fun _ => keepsEnded id) gateway (fun _ _ => True) c

section
variable {c c' : Config Runtime Unit Writer Call Answer String Operation}
  {a : Action Runtime Writer Call Answer String Operation}

theorem Tidy.step (h : Tidy c) (hs : Step gateway c a c') (ha : Spaced c a c') : Tidy c' :=
  ⟨((plansGo_carries Spaced).step h.plans hs ha).1,
    fun id => (h.ends id).step (gateway_governs id) hs (ha.spared id)⟩

theorem Tidy.sole (h : Tidy c) (hs : Step gateway c a c') (ha : Spaced c a c') (hso : c.state.sole) :
    c'.state.sole ∧ ∀ x ∈ a.writes, x.post.sole := by
  obtain ⟨o,hop,hc,-⟩|⟨-,hw,-,he,-⟩|⟨-,hw,-,ms,hms⟩ := hs.kind
  · have hpl := ((plansGo_carries Spaced).step h.plans hs ha).2.writes o hop
    have hen := fun id => ((h.ends id).owed (gateway_governs id) hs (ha.spared id)).writes o hop
    obtain ⟨h₁,h₂⟩ := hc.keeps (fun s => Regular s ∧ s.sole) (fun x hx hp =>
      ⟨(hpl x hx).regular hp.1,(hpl x hx).sole hp.1 hp.2 (fun id => hen id x hx) (ha.room x hx)
        (ha.adopts x hx)⟩) ⟨h.plans.inv,hso⟩
    exact ⟨h₁.2,fun x hx => (h₂ x hx).2⟩
  · rw [he,hw]
    exact ⟨hso,by simp⟩
  · rw [hms,hw]
    exact ⟨hso,by simp⟩

/-- In a run in which no thread comes back from its end, and adoptions store their threads only where
no open thread is of the backend and symbol, no two open threads ever are. -/
theorem one_open_thread {backend : Backend} {workflow : Workflow} {now : ℕ}
    (h : Run gateway Spaced ⟨Runtime.fresh backend workflow now,(),[]⟩ c) (hs : Step gateway c a c')
    (ha : Spaced c a c') : c.state.sole ∧ c'.state.sole ∧ ∀ x ∈ a.writes, x.post.sole := by
  have hnone : ∀ id, (Runtime.fresh backend workflow now).thread id=none := fun _ => rfl
  have hreg : Regular (Runtime.fresh backend workflow now) := fun id u hu => by
    rw [Option.mem_def,hnone] at hu
    cases hu
  have hsole : (Runtime.fresh backend workflow now).sole := fun t ht => by
    have := Runtime.thread_of_mem ht
    rw [hnone] at this
    cases this
  have hc : Tidy c ∧ c.state.sole := h.invariant
    (I := fun c => Tidy c ∧ c.state.sole)
    ⟨⟨⟨hreg,by simp⟩,fun _ => ⟨trivial,by simp⟩⟩,hsole⟩
    fun _ _ _ hc hs ha => ⟨hc.1.step hs ha,(hc.1.sole hs ha hc.2).1⟩
  exact ⟨hc.2,hc.1.sole hs ha hc.2⟩

end
end

section scripts

/-- Two positions of the account, each with its stop. -/
def pairView : AccountView :=
  ⟨.demo,"1000",[⟨"BTCUSDT",.long,"1","100","100",5⟩,⟨"ETHUSDT",.long,"1","100","100",5⟩],
    [restingStop,{ restingStop with symbol := "ETHUSDT", clientOrderId := "s2" }]⟩

/-- Two positions are adopted at the same time, up to the step that stores the second thread. -/
def besideMoves (one other : String) : List (Move Runtime Unit Call Answer Operation) :=
  let answer := { replies with account := .ok pairView : Replies }.answer
  [.start (.adoptPosition one none none),.start (.adoptPosition other none none),.serve 0 answer id,
    .serve 1 answer id,.resume 0]

theorem timely_besideMoves (one other : String) : (besideMoves one other).Forall Timely :=
  ⟨trivial,trivial,trivial,trivial,trivial⟩

/-- No thread has ended, and new ones are stored where there is room for them. -/
def spacious (_ : Config Runtime Unit Writer Call Answer String Operation)
    (a : Action Runtime Writer Call Answer String Operation)
    (c' : Config Runtime Unit Writer Call Answer String Operation) : Bool :=
  decide (∀ t ∈ c'.state.threads.rows, ¬t.ended) && a.writes.all fun x =>
    decide (x.pre.roomy ∧ ∀ t ∈ x.post.threads.rows, (x.pre.thread t.id).isSome ∨
      ¬x.pre.occupied t.backend t.symbol)

theorem spaced_of_spacious [Host] {c c' : Config Runtime Unit Writer Call Answer String Operation}
    {a : Action Runtime Writer Call Answer String Operation} (h : spacious c a c'=true) :
    Spaced c a c' := by
  obtain ⟨hend,hw⟩ := Bool.and_eq_true_iff.mp h
  have hw := fun x hx => of_decide_eq_true (List.all_eq_true.mp hw x hx)
  refine ⟨fun id _ he => ?_,fun x hx _ _ => (hw x hx).1,fun x hx t hb _ => ?_⟩
  · obtain ⟨t,ht,he⟩ := he
    exact absurd he (of_decide_eq_true hend t (Keyed.Table.mem_of_lookup ht))
  · refine ((hw x hx).2 t (Keyed.Table.mem_of_lookup hb.2)).resolve_left ?_
    rw [hb.1]
    nofun

end scripts

/-- Adoptions of two symbols store two open threads. -/
theorem two_threads_apart : letI := oneDigest
    ((configAfter (besideMoves "BTCUSDT" "ETHUSDT")).move gateway (.resume 1)).state.sole ∧
      ((configAfter (besideMoves "BTCUSDT" "ETHUSDT")).move gateway (.resume 1)).state.openThreads.length=2 := by
  let := oneDigest
  have h : Run gateway Spaced _ (configAfter (besideMoves "BTCUSDT" "ETHUSDT")) :=
    .of_along .refl (gateway_legalPlay (timely_besideMoves _ _) _) (by decide +kernel)
      fun _ _ _ => spaced_of_spacious
  have hs : Step gateway (configAfter (besideMoves "BTCUSDT" "ETHUSDT")) _ _ :=
    .of_applies (m := .resume 1) trivial (by decide +kernel)
  exact ⟨(one_open_thread h hs (spaced_of_spacious (by decide +kernel))).2.1,by decide +kernel⟩

/-- Two adoptions of one symbol that wait for the account at the same time store two open threads. -/
theorem position_adopted_twice : ¬∀ (h : Host) (backend : Backend) (workflow : Workflow) (now : ℕ)
    (c : Config Runtime Unit Writer Call Answer String Operation),
      Run (@gateway h) anyStep ⟨Runtime.fresh backend workflow now,(),[]⟩ c → c.state.sole := by
  intro hall
  let := oneDigest
  have hms : (besideMoves "BTCUSDT" "BTCUSDT"++[Move.resume 1]).Forall Timely :=
    ⟨trivial,trivial,trivial,trivial,trivial,trivial⟩
  have h : Run gateway anyStep _ (configAfter (besideMoves "BTCUSDT" "BTCUSDT"++[Move.resume 1])) :=
    .of_play .refl (gateway_legalPlay hms _)
  exact absurd (hall oneDigest _ _ _ _ h) (by decide +kernel)

end TradeGate
