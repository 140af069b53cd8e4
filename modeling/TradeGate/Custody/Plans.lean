import TradeGate.Custody.Requests
import TradeGate.Js.Digits

/-! Client order ids of threads tell the thread's prefix, the leg and its number. -/
namespace TradeGate

theorem Leg.text_char (leg : Leg) : ∃ c, leg.text.toList=[c] ∧ ¬c.isDigit := by
  cases leg
  · exact ⟨'e',rfl,by decide⟩
  · exact ⟨'s',rfl,by decide⟩
  · exact ⟨'t',rfl,by decide⟩
  · exact ⟨'x',rfl,by decide⟩
  · exact ⟨'r',rfl,by decide⟩

theorem Leg.text_injective {l k : Leg} (h : l.text=k.text) : l=k := by
  revert h
  cases l <;> cases k <;> decide

variable [Host]

theorem legCid_inj {a b : String} {l k : Leg} {m n : ℕ} (h : legCid a l m=legCid b k n) :
    threadClientPrefix a=threadClientPrefix b ∧ l=k ∧ m=n := by
  obtain ⟨c,hc,hcd⟩ := l.text_char
  obtain ⟨d,hd,hdd⟩ := k.text_char
  have hl := congrArg String.toList h
  simp only [legCid,String.toList_append,hc,hd,List.append_assoc,List.singleton_append] at hl
  rw [← List.append_assoc,← List.append_assoc (threadClientPrefix b).toList] at hl
  obtain ⟨hp,hcd',hn⟩ := Js.append_digits_inj hcd hdd (fun _ => Js.isDigit_of_mem_natText)
    (fun _ => Js.isDigit_of_mem_natText) hl
  refine ⟨String.ext (List.append_cancel_right hp),Leg.text_injective (String.ext ?_),
    Js.natText_injective (String.ext hn)⟩
  rw [hc,hd,hcd']

end TradeGate

/-! Every stored thread keeps its plan, and is open or has ended.  The copies that an operation may
store are of stored threads; where the operation has a home, of threads of that backend. -/
namespace TradeGate
open Coop

/-- The thread is open or has ended. -/
def StrategyThread.usual (t : StrategyThread) : Prop := t.isOpen ∨ t.ended

/-- The thread belongs to the backend, if one is given. -/
def StrategyThread.livesAt (t : StrategyThread) (home : Option Backend) : Prop := ∀ b ∈ home, t.backend=some b

/-- Stored threads stay stored, with their plans. -/
def PlansKept (s s' : Runtime) : Prop := ∀ id, ∀ u ∈ s.thread id, ∃ u' ∈ s'.thread id, u'.plan=u.plan

/-- The copy is of a stored thread. -/
def OfStored (t : StrategyThread) (s : Runtime) : Prop := ∃ u ∈ s.thread t.id, u.plan=t.plan

/-- Every stored thread is open or has ended. -/
def Regular (s : Runtime) : Prop := ∀ id, ∀ u ∈ s.thread id, u.usual

/-- Orders of a stored thread go out under its client order ids. -/
def planned (ω : Type) [Host] (home : Option Backend) : Custody ω where
  inv s _ := Regular s ∧ ∀ b ∈ home, s.backend=b
  held t s _ := t.usual ∧ OfStored t s ∧ t.livesAt home
  known t s _ := t.usual ∧ OfStored t s ∧ t.livesAt home
  kin t s _ := OfStored t s ∧ t.livesAt home
  leg id c _ _ := ∃ leg n, c=legCid id leg n
  again id c _ _ := ∃ leg n, c=legCid id leg n
  spent _ _ _ := True
  ticket t c s _ := OfStored t s ∧ t.livesAt home ∧ ∃ n, c=legCid t.id .e n
  owned _ _ _ := True
  pairs _ _ _ _ := True
  back s _ _ _ s' _ := PlansKept s s' ∧ Regular s' ∧ ∀ b ∈ home, s'.backend=b
  watch := False

section
variable {s s' : Runtime} {t u : StrategyThread} {home : Option Backend}

theorem PlansKept.refl (s : Runtime) : PlansKept s s := fun _ u hu => ⟨u,hu,rfl⟩

theorem PlansKept.trans {s'' : Runtime} (h : PlansKept s s') (h' : PlansKept s' s'') : PlansKept s s'' := by
  intro id u hu
  obtain ⟨u',hu',hp⟩ := h id u hu
  obtain ⟨u'',hu'',hp'⟩ := h' id u' hu'
  exact ⟨u'',hu'',hp'.trans hp⟩

theorem PlansKept.of_threads (h : s'.threads=s.threads) : PlansKept s s' := fun id u hu =>
  ⟨u,by rwa [thread_congr h],rfl⟩

theorem OfStored.stored (h : s.thread t.id=some t) : OfStored t s := ⟨t,h,rfl⟩

theorem OfStored.of_thread {id : String} (h : s.thread id=some t) : OfStored t s :=
  .stored (by rw [Runtime.id_of_thread h]; exact h)

theorem OfStored.kept (h : OfStored t s) (hk : PlansKept s s') : OfStored t s' := by
  obtain ⟨u,hu,hp⟩ := h
  obtain ⟨u',hu',hp'⟩ := hk t.id u hu
  exact ⟨u',hu',hp'.trans hp⟩

theorem OfStored.congr (h : OfStored t s) (hp : u.plan=t.plan) : OfStored u s := by
  obtain ⟨v,hv,hvp⟩ := h
  exact ⟨v,by rw [show u.id=t.id from congrArg Plan.id hp]; exact hv,hvp.trans hp.symm⟩

/-- Storing a record of a stored thread keeps the plans. -/
theorem OfStored.saved (h : OfStored t s) (hp : u.plan=t.plan) : PlansKept s (s.saveThread u) := by
  intro id v hv
  obtain ⟨y,hy,hyp⟩ := h
  rw [Runtime.thread_saveThread]
  split
  · next hid =>
    rw [← hid,show u.id=t.id from congrArg Plan.id hp] at hv
    rw [Option.mem_def,hv] at hy
    cases hy
    exact ⟨u,rfl,hp.trans hyp.symm⟩
  · exact ⟨v,hv,rfl⟩

/-- Storing a new thread keeps the plans of the others. -/
theorem PlansKept.unborn (h : s.thread t.id=none) : PlansKept s (s.saveThread t) := by
  intro id v hv
  rw [Runtime.thread_saveThread,if_neg]
  · exact ⟨v,hv,rfl⟩
  · rintro rfl
    rw [Option.mem_def,h] at hv
    cases hv

theorem PlansKept.of_quiet (h : ∀ id, Quiet id s s') : PlansKept s s' := by
  intro id v hv
  rcases h id with hq|⟨y,hy,ids,hq⟩
  · exact ⟨v,by rw [hq]; exact hv,rfl⟩
  · rw [Option.mem_def,hv] at hy
    cases hy
    exact ⟨_,hq,rfl⟩

theorem StrategyThread.livesAt.congr (h : t.livesAt home) (hp : u.plan=t.plan) : u.livesAt home := fun b hb =>
  (congrArg Plan.backend hp).trans (h b hb)

theorem Regular.saveThread (h : Regular s) (hu : u.usual) : Regular (s.saveThread u) := by
  intro id v hv
  rw [Runtime.thread_saveThread] at hv
  split at hv
  · cases hv
    exact hu
  · exact h id v hv

theorem Regular.of_threads (h : Regular s) (ht : s'.threads=s.threads) : Regular s' := fun id v hv =>
  h id v (by rwa [← thread_congr ht])

end

namespace Custody

variable {ω : Type} {K : Custody ω} {s s' : Runtime} {w : ω} {p : Power} {l : Writer} {t u : StrategyThread}

theorem Edit.usual (h : K.Edit l s w t u) (ht : t.usual) : u.usual := by
  have hsame : u.status=t.status → u.usual := fun hs => by
    unfold StrategyThread.usual StrategyThread.isOpen StrategyThread.ended
    rw [hs]
    exact ht
  cases h.change with
  | noted h _ => exact hsame (congrArg Progress.status h)
  | resized h _ _ => exact hsame (congrArg Progress.status h)
  | filled h _ _ => exact .inl (.inr (congrArg Progress.status h))
  | submitted h _ _ => exact hsame (congrArg Progress.status h)
  | ended _ he _ _ _ => exact .inr he

theorem Minting.usual [Host] (h : Minting s t u) : u.usual := .inl <| .inl <|
  (congrArg Progress.status h.progress).trans h.unsent.1

theorem Draws.plansKept {i : DemoIntent} (hd : Draws s t i s') : PlansKept (s.saveThread t) s' := by
  obtain ⟨ids,hids⟩ := hd.thread
  exact .of_quiet (.of_jot (Runtime.thread_saveThread_self s t) hids)

theorem Draws.regular {i : DemoIntent} (hd : Draws s t i s') (hr : Regular s) (ht : t.usual) :
    Regular s' := by
  obtain ⟨ids,hids⟩ := hd.thread
  have hu : StrategyThread.usual { t with intentIds := ids } := ht
  exact ((hr.saveThread ht).saveThread hu).of_threads hids

theorem Proposed.usual (h : Proposed s t) : t.usual :=
  .inl (.inl (congrArg Progress.status h.progress))

end Custody

section
variable {ω : Type} {K : Custody ω} {home : Option Backend} {s s' : Runtime} {w : ω} {p : Power} {l : Writer}
  {t u : StrategyThread}

/-- Where only copies of stored threads may be stored, a deed keeps the plans. -/
theorem Custody.Deed.keepsPlans (hK : ∀ {t s w}, K.held t s w → OfStored t s) (hd : K.Deed p l s w s') :
    PlansKept s s' := by
  cases hd.threads with
  | same h => exact .of_threads h
  | jot t ids ht h => exact .of_quiet (.of_jot ht h)
  | edit t u ht he h => exact ((hK ht).saved he.plan).trans (.of_threads h)
  | create t hc h => exact (PlansKept.unborn hc.unborn).trans (.of_threads h)
  | reject t u ht plan _ _ _ _ _ h =>
    exact ((OfStored.stored ht).saved plan).trans (.of_threads h)

variable [Host]

theorem Custody.Stroke.keepsPlans (hK : ∀ {t s w}, K.held t s w → OfStored t s) (h : K.Stroke p l s w s') :
    PlansKept s s' := by
  cases h with
  | deed _ hd => exact hd.keepsPlans hK
  | proposes t _ _ hc h => exact h ▸ .unborn hc.unborn
  | draws s₀ t i _ _ hc hs hd => exact hs ▸ hd.plansKept
  | takes t u _ _ _ ht _ hm h => exact h ▸ (hK ht).saved hm.plan
  | approves s₀ t u i j _ _ _ _ _ _ _ _ _ _ h => exact h ▸ .of_threads rfl

theorem Custody.Deed.plansKept (hd : (planned ω home).Deed p l s w s') : PlansKept s s' :=
  hd.keepsPlans fun {t s w} (h : (planned ω home).held t s w) => h.2.1

theorem Custody.Deed.regular (hr : Regular s) (hd : (planned ω home).Deed p l s w s') : Regular s' := by
  cases hd.threads with
  | same h => exact hr.of_threads h
  | jot t ids ht h =>
    have hu : StrategyThread.usual { t with intentIds := ids } := hr t.id t ht
    exact (hr.saveThread hu).of_threads h
  | edit t u ht he h => exact (hr.saveThread (he.usual ht.1)).of_threads h
  | create t hc h =>
    exact (hr.saveThread (.inl (.inr (congrArg Progress.status hc.progress)))).of_threads h
  | reject t u ht plan hu _ _ _ _ h =>
    exact (hr.saveThread (.inr (.inr (congrArg Progress.status hu)))).of_threads h

theorem planned_laws (hp : home.isSome → p ≠ .switching) : (planned ω home).Laws p where
  known_of_held h := h
  kin_of_held _ h := h.2
  kin_plan hp h := ⟨h.1.congr hp,h.2.congr hp⟩
  back_inv _ hb := hb.2
  back_held _ hb h := ⟨h.1,h.2.1.kept hb.1,h.2.2⟩
  back_known _ hb h := ⟨h.1,h.2.1.kept hb.1,h.2.2⟩
  back_kin _ hb h := ⟨h.1.kept hb.1,h.2⟩
  back_leg _ _ _ h := h
  back_again _ _ h := h.elim And.left And.left
  back_spent _ _ _ := trivial
  back_ticket _ hb _ h := ⟨h.1.kept hb.1,h.2⟩
  back_owned _ _ _ := trivial
  back_now hw := hw.elim
  listed h ht _ := by
    obtain ⟨hm,ho,hb⟩ := Runtime.mem_openThreads ht
    exact ⟨.inl ho,.stored (Runtime.thread_of_mem hm),fun b hhome => by rw [hb,h.2 b hhome]⟩
  reread {t s w} h hk := by
    obtain ⟨-,⟨u,hu,hp⟩,hhome⟩ := hk
    rw [hu,Option.getD_some]
    exact ⟨h.1 _ u hu,.of_thread hu,hhome.congr hp⟩
  takeIntent _ _ := trivial
  takePair _ _ _ _ _ := trivial
  deed_inv h hd := ⟨hd.regular h.1,fun b hb => by
    rw [hd.backend.resolve_right (hp (Option.isSome_of_mem hb))]
    exact h.2 b hb⟩
  deed_quiet _ hd _ := ⟨fun h => ⟨h.1,h.2.1.kept hd.plansKept,h.2.2⟩,
    fun h => ⟨h.1,h.2.1.kept hd.plansKept,h.2.2⟩⟩
  watch_known hw := hw.elim
  watch_spent hw := hw.elim
  deed_edit _ h he _ := ⟨he.usual h.1,.stored (Runtime.thread_saveThread_self _ _),h.2.2.congr he.plan⟩
  deed_known _ h he _ _ hk := ⟨hk.1,hk.2.1.kept (h.2.1.saved he.plan),hk.2.2⟩
  deed_mints _ _ _ _ _ := ⟨_,_,rfl⟩
  deed_create {t s w} h hc _ := ⟨.inl (.inr (congrArg Progress.status hc.progress)),
    .stored (Runtime.thread_saveThread_self s t),fun b hb => by rw [hc.backend,h.2 b hb]⟩
  deed_kin _ hd h := ⟨h.1.kept hd.plansKept,h.2⟩
  deed_leg _ _ h := h
  deed_again _ _ h := h
  deed_spent _ _ _ := trivial
  deed_ticket _ hd h := ⟨h.1.kept hd.plansKept,h.2⟩
  deed_owned _ _ _ := trivial
  patch_owned _ _ _ := trivial
  propose {t i s w s'} _ h hc _ hd := by
    refine ⟨⟨hd.regular h.1 hc.usual,fun b hb => by rw [hd.backend,h.2 b hb]⟩,⟨hc.usual,?_,?_⟩,
      trivial,trivial⟩
    · exact (OfStored.stored (Runtime.thread_saveThread_self s t)).kept hd.plansKept
    · exact fun b hb => by rw [hc.backend,h.2 b hb]
  mint {t u i j s w} _ h ht _ _ hm _ _ _ := by
    have hk : PlansKept s ((s.saveThread u).saveIntent j) :=
      (ht.2.1.saved hm.plan).trans (.of_threads rfl)
    have hst := ht.2.1.kept hk
    refine ⟨⟨(h.1.saveThread hm.usual).of_threads rfl,h.2⟩,fun v hv hst' => ⟨?_,hst.congr hv,ht.2.2.congr hv⟩,
      ⟨hst,ht.2.2⟩,⟨hst,ht.2.2,_,rfl⟩,trivial,trivial⟩
    exact .inl (.inl ((congrArg Progress.status hst').trans hm.unsent.1))

theorem planned_free_laws : (planned ω none).Laws p := planned_laws fun h => nomatch h

/-- Every write of an operation keeps the plans of the stored threads. -/
theorem Custody.Stroke.plansKept (h : (planned ω home).Stroke p l s w s') :
    PlansKept s s' :=
  h.keepsPlans fun {t s w} (h : (planned ω home).held t s w) => h.2.1

theorem Custody.Stroke.regular (h : (planned ω home).Stroke p l s w s') (hr : Regular s) :
    Regular s' := by
  cases h with
  | deed _ hd => exact hd.regular hr
  | proposes t _ _ hc h => exact h ▸ hr.saveThread hc.usual
  | draws s₀ t i _ hi hc hs hd => exact hd.regular hi.1 hc.usual
  | takes t u _ _ _ ht _ hm h => exact h ▸ hr.saveThread hm.usual
  | approves s₀ t u i j _ _ _ _ _ _ _ _ _ _ h => exact h ▸ hr.of_threads rfl

end
end TradeGate
