import TradeGate.Model.Screener
import TradeGate.Settings.Bounds
import TradeGate.Settings.Chat

/-! What the radar can do to the workflow.  Over any applications of proposals, by the user or by itself, only the
watchlist changes and what hangs on it; a symbol comes onto the list from a proposal of a screening that is done. -/
namespace TradeGate.Screens
open Js Machine Settings Screener

/-! Symbols of perpetuals. -/
section
variable {s x : String} {list texts : List String} {c : Char} {cs : List Char}

theorem mapM_textOf (list : List String) : (list.map Value.str).mapM textOf=.ok list := by
  induction list with
  | nil => rfl
  | cons s list ih =>
    rw [List.map_cons,List.mapM_cons,ih]
    rfl

/-- The symbols that a list of texts gives. -/
theorem mem_perpetuals (h : perpetuals (texts.map .str)=.ok list) (hx : x ∈ list) :
    isPerpetual x=true ∧ ∃ y ∈ texts, x=upperCase (trimmed y) := by
  unfold perpetuals at h
  rw [mapM_textOf] at h
  cases h
  obtain ⟨hmem,hp⟩ := List.mem_filter.mp (List.mem_eraseDups.mp hx)
  obtain ⟨y,hy,rfl⟩ := List.mem_map.mp hmem
  exact ⟨hp,y,hy,rfl⟩

def Plain (c : Char) : Prop := c.isUpper=true ∨ c.isDigit=true

theorem plain_of_isPerpetual (h : isPerpetual s=true) : ∀ c ∈ s.toList, Plain c := by
  unfold isPerpetual at h
  simp only [Bool.and_eq_true,decide_eq_true_eq,List.all_eq_true,Bool.or_eq_true] at h
  obtain ⟨⟨⟨hend,-⟩,-⟩,hbase⟩ := h
  intro c hc
  rw [← List.take_append_drop (s.toList.length-4) s.toList] at hc
  rcases List.mem_append.mp hc with hc | hc
  · exact hbase c hc
  · rw [hend] at hc
    have hall : ∀ c ∈ "USDT".toList, c.isUpper=true := List.all_eq_true.mp (by decide)
    exact .inl (hall c hc)

theorem plain_toNat (h : Plain c) : 48 ≤ c.toNat ∧ c.toNat ≤ 90 := by
  unfold Plain Char.isUpper Char.isDigit at h
  simp only [Bool.and_eq_true,decide_eq_true_eq,ge_iff_le,UInt32.le_iff_toNat_le] at h
  change 65 ≤ c.toNat ∧ c.toNat ≤ 90 ∨ 48 ≤ c.toNat ∧ c.toNat ≤ 57 at h
  omega

theorem not_isSpace_of_plain (h : Plain c) : isSpace c=false := by
  have hc := plain_toNat h
  unfold isSpace
  simp only [List.mem_cons,List.not_mem_nil,or_false,decide_eq_false_iff_not]
  omega

theorem upperChar_of_plain (h : Plain c) : upperChar c=[c] := by
  have hc := plain_toNat h
  have hupper : c.toUpper=c := by
    unfold Char.toUpper
    rw [dif_neg]
    intro hlow
    have := UInt32.le_iff_toNat_le.mp hlow.1
    change 97 ≤ c.toNat at this
    omega
  unfold upperChar
  split
  case h_11 => rw [hupper]
  all_goals omega

/-- The symbol of a perpetual is written as it is. -/
theorem upperCase_trimmed (h : isPerpetual s=true) : upperCase (trimmed s)=s := by
  have hplain := plain_of_isPerpetual h
  have hstrip : strip s.toList=s.toList := trimmed_none fun c hc => not_isSpace_of_plain (hplain c hc)
  have hupper : s.toList.flatMap upperChar=s.toList.flatMap fun c => [c] :=
    List.flatMap_congr fun c hc => upperChar_of_plain (hplain c hc)
  rw [upperCase,trimmed,String.toList_ofList,hstrip,hupper,List.flatMap_singleton',String.ofList_toList]

end

/-! One application. -/
section
variable {s s' : State} {list errors : List String} {p : WatchlistProposal}

/-- Only perpetuals are watched. -/
def Perpetual (w : Settings.Workflow) : Prop := ∃ list : List String, w "watchlist"=.arr (list.map .str) ∧ ∀ x ∈ list, isPerpetual x=true

theorem texts_str (list : List String) : texts (.arr (list.map .str))=list := by
  induction list with
  | nil => rfl
  | cons s list ih =>
    change s::texts (.arr (list.map .str))=_
    rw [ih]

theorem sliceTo_subset {α : Type} (n : Value) (xs : List α) : sliceTo n xs ⊆ xs := by
  unfold sliceTo
  split
  · exact List.take_subset _ _
  · split
    · exact List.nil_subset xs
    · exact List.Subset.refl xs
  · exact List.nil_subset xs

theorem sliceTo_map {α β : Type} (n : Value) (f : α → β) (xs : List α) : sliceTo n (xs.map f)=(sliceTo n xs).map f := by
  unfold sliceTo
  split
  · rw [List.map_take,List.length_map]
  · split <;> rfl
  · rfl

/-- A patch of the watchlist alone. -/
def patchOf (list : List String) : Patch := [("watchlist",.arr (list.map .str))]

theorem field_patchOf {k : String} (h : k ≠ "watchlist") (list : List String) : field (patchOf list) k=none := by
  rw [field,patchOf,List.lookup_cons,beq_false_of_ne h]
  rfl

theorem mild_patchOf (list : List String) : Patch.Mild (patchOf list) := by
  refine List.forall_mem_singleton.mpr (.inr ⟨?_,.inl ?_⟩)
  · change "watchlist" ∉ directWorkflowKeys
    decide
  · change "watchlist" ∈ proposalWorkflowKeys
    decide

theorem guard_patchOf {g : Guard} {v : Value} (hg : g ∈ guards) (hv : field (patchOf list) g.field.key=some v) :
    g=watchlistGuard ∧ v=.arr (list.map .str) := by
  have hkey : g.field.key="watchlist" := by
    by_contra hne
    rw [field_patchOf hne] at hv
    cases hv
  have hguard : g=watchlistGuard := guard_eq hg (by simp [guards,firstGuards]) hkey
  subst hguard
  exact ⟨rfl,(Option.some.inj hv).symm⟩

/-- A watchlist is set, or refused with the one before it. -/
theorem watchlist_set {w : Settings.Workflow} {now : ℕ} {q : Patching} (h : applyWorkflowPatch w (patchOf list) now=.ok q) :
    q.errors ≠ [] ∧ q.next "watchlist"=w "watchlist" ∨
      q.errors=[] ∧ ∃ after : List String, q.next "watchlist"=.arr (after.map .str) ∧
        ∀ x ∈ after, isPerpetual x=true ∧ ∃ y ∈ list, x=upperCase (trimmed y) := by
  have hmax : field (patchOf list) "watchlist_max"=none := field_patchOf (by decide) list
  obtain ⟨errors,value,hr,hsub,hx⟩ := applyWorkflowPatch_first hmax h (f := watchlist) (by simp [firstFields]) rfl
  obtain ⟨raw,hraw,⟨e,-,hread⟩|⟨-,hread⟩|⟨l,hp,-,hread⟩⟩|⟨hno,-⟩ := watchlist_read (.arr (list.map .str))
  · cases hread.symm.trans hr
  · cases hread.symm.trans hr
    left
    refine ⟨List.ne_nil_of_mem (hsub List.mem_cons_self),?_⟩
    have hrefused : ∀ g ∈ guards, g.field.key="watchlist" → ∀ v, field (patchOf list) "watchlist"=some v →
        ∃ e, g.field.read v=.ok ([e],none) := fun g hg hkey v hv => by
      obtain ⟨rfl,rfl⟩ := guard_patchOf hg (hkey ▸ hv)
      exact ⟨_,hread⟩
    obtain ⟨q',hq',hnext⟩ := applied_without h hrefused
    rw [← hnext]
    exact applyWorkflowPatch_off rfl hq' rfl (by decide) (by decide)
  · cases hread.symm.trans hr
    cases hraw
    right
    constructor
    · refine List.eq_nil_iff_forall_not_mem.mpr fun e he => ?_
      obtain ⟨g,hg,v,errors,value,hv,hgr,hmem⟩ := told_of_applied h e he
      obtain ⟨rfl,rfl⟩ := guard_patchOf hg hv
      cases hread.symm.trans hgr
      cases hmem
    · have hin : (watchlist.read (.arr (list.map .str))).Within (firstFields.map Field.key) := by
        intro errors x hx w w' hw
        cases hread.symm.trans hx
        dsimp only
        rw [hw "watchlist_max" (by decide +kernel)]
      refine ⟨sliceTo (w "watchlist_max") l,?_,fun x hmem => mem_perpetuals hp (sliceTo_subset _ _ hmem)⟩
      rw [← sliceTo_map]
      exact (hx hin _ rfl).trans (by rw [sliceTo_map])
  · exact absurd rfl (hno _)

theorem setWatchlist_ok (hb : InBounds s.workflow) (hp : s.Pinned)
    (h : s.setWorkflow (patchOf list)=.ok (errors,s')) :
    s'.runtime=s.runtime ∧ s'.proposals=s.proposals ∧ s'.Pinned ∧ InBounds s'.workflow ∧
      (∀ k ∉ ["watchlist","watch_only","updated_at"], s'.workflow k=s.workflow k) ∧
      (errors ≠ [] ∧ s'.workflow "watchlist"=s.workflow "watchlist" ∨
        errors=[] ∧ ∃ after : List String, s'.workflow "watchlist"=.arr (after.map .str) ∧
          ∀ x ∈ after, isPerpetual x=true ∧ ∃ y ∈ list, x=upperCase (trimmed y)) := by
  obtain ⟨hruntime,hproposals,hpinned,hspares⟩ := setWorkflow_spares h (mild_patchOf list) hp
  have hother : ∀ k ∉ ["watchlist","watch_only","updated_at"], s'.workflow k=s.workflow k := by
    intro k hk
    simp only [List.mem_cons,List.not_mem_nil,or_false,not_or] at hk
    exact hspares.other k (field_patchOf hk.1 list) hk.2.1 hk.2.2
  obtain ⟨q,hq,rfl,hat⟩ := setWorkflow_at h
  have hlist : s'.workflow "watchlist"=q.next "watchlist" := hat _ (by decide +kernel) (by decide) (by decide)
  refine ⟨hruntime,hproposals,hpinned,?_,hother,?_⟩
  · obtain ⟨q',hq',-,⟨-,rfl⟩|rfl⟩ := setWorkflow_ok h
    · exact hb
    · have hexecution : q'.next "execution"=.str s.runtime.backend.text :=
        (applyWorkflowPatch_off (field_patchOf (by decide) list) hq' (field_patchOf (by decide) list) (by decide)
          (by decide)).trans hp
      rw [← hexecution,Function.update_eq_self]
      exact hb.applied hq'
  · rw [hlist]
    exact watchlist_set hq

theorem mem_proposalPatch {m : Value} {pick : Option (List String)} {current : List String} {y : String}
    (h : y ∈ proposalPatch p m pick current) : y ∈ p.symbols ∨ pick ≠ none ∧ y ∈ current := by
  unfold proposalPatch at h
  split at h
  · have hmem := (List.mem_filter.mp (sliceTo_subset _ _ h)).2
    exact (List.mem_append.mp (of_decide_eq_true hmem)).imp id fun hy => ⟨Option.some_ne_none _,hy⟩
  · exact .inl (sliceTo_subset _ _ h)

/-- The application is of a proposal with the symbol, by the user or in time. -/
def Application.Proposes (e : Application) (x : String) : Prop := ∃ screen p, e.screens.lookup e.screenId=some screen ∧
  screen.status=.done ∧ screen.proposal=some p ∧ (e.by_=.auto → e.now ≤ screen.started_at+screen.horizon.ttl_ms) ∧
    ∃ y ∈ p.symbols, x=upperCase (trimmed y)

/-- What an application keeps. -/
structure Kept (s s' : State) : Prop where
  bounds : InBounds s'.workflow
  pinned : s'.Pinned
  perpetual : Perpetual s'.workflow
  backend : s'.runtime.backend=s.runtime.backend
  proposals : s'.proposals=s.proposals
  other : ∀ k ∉ ["watchlist","watch_only","updated_at"], s'.workflow k=s.workflow k

variable (screens : Keyed.Table ScreenRow.id) (screenId : String) (by_ : Applier) (pick : Option (List String))

theorem apply_kept (hb : InBounds s.workflow) (hp : s.Pinned) (hl : Perpetual s.workflow) :
    Kept s (apply s screens screenId by_ pick).2 ∧
      ∀ x ∈ texts ((apply s screens screenId by_ pick).2.workflow "watchlist"),
        x ∈ texts (s.workflow "watchlist") ∨ Application.Proposes ⟨s.runtime.now,screens,screenId,by_,pick⟩ x := by
  have hnone : Kept s s ∧ ∀ x ∈ texts (s.workflow "watchlist"),
      x ∈ texts (s.workflow "watchlist") ∨ Application.Proposes ⟨s.runtime.now,screens,screenId,by_,pick⟩ x :=
    ⟨⟨hb,hp,hl,rfl,rfl,fun _ _ => rfl⟩,fun x hx => .inl hx⟩
  unfold apply
  split
  · exact hnone
  · next screen hscreen =>
    split
    · exact hnone
    · next p hproposal =>
      split
      · exact hnone
      · next hstatus =>
        split
        · exact hnone
        · next hlate =>
          dsimp only
          split
          · exact hnone
          · next errors s' hset =>
            obtain ⟨hruntime,hproposals,hpinned,hbounds,hother,hlist⟩ := setWatchlist_ok hb hp hset
            have hstate : Kept s s' ∧ ∀ x ∈ texts (s'.workflow "watchlist"),
                x ∈ texts (s.workflow "watchlist") ∨ Application.Proposes ⟨s.runtime.now,screens,screenId,by_,pick⟩ x := by
              obtain ⟨before,hbefore,hperpetual⟩ := hl
              rcases hlist with ⟨-,hsame⟩ | ⟨-,after,hafter,hfrom⟩
              · refine ⟨⟨hbounds,hpinned,⟨before,hsame.trans hbefore,hperpetual⟩,by rw [hruntime],hproposals,hother⟩,?_⟩
                rw [hsame]
                exact fun x hx => .inl hx
              · refine ⟨⟨hbounds,hpinned,⟨after,hafter,fun x hx => (hfrom x hx).1⟩,by rw [hruntime],hproposals,hother⟩,?_⟩
                rw [hafter,hbefore,texts_str,texts_str]
                intro x hx
                obtain ⟨-,y,hy,rfl⟩ := hfrom x hx
                rw [hbefore,texts_str] at hy
                rcases mem_proposalPatch hy with hy | ⟨-,hy⟩
                · refine .inr ⟨screen,p,hscreen,not_not.mp hstatus,hproposal,fun hauto => ?_,y,hy,rfl⟩
                  exact Nat.le_of_not_lt fun hlt => hlate ⟨hlt,hauto⟩
                · rw [upperCase_trimmed (hperpetual y hy)]
                  exact .inl hy
            split
            · exact hstate
            · exact hstate

theorem step_kept (hb : InBounds s.workflow) (hp : s.Pinned) (hl : Perpetual s.workflow) (e : Application) :
    Kept s (step s e) ∧ ∀ x ∈ texts ((step s e).workflow "watchlist"), x ∈ texts (s.workflow "watchlist") ∨ e.Proposes x := by
  obtain ⟨hkept,hfrom⟩ := apply_kept (s := { s with runtime := { s.runtime with now := e.now } })
    e.screens e.screenId e.by_ e.pick hb hp hl
  exact ⟨⟨hkept.bounds,hkept.pinned,hkept.perpetual,hkept.backend,hkept.proposals,hkept.other⟩,hfrom⟩

end

/-- Whatever proposals are applied in whatever order, the workflow keeps its bounds and every key that is not the
watchlist's, and the radar brings no symbol of its own. -/
theorem radar_kept (s : State) (es : List Application) (hb : InBounds s.workflow) (hp : s.Pinned)
    (hl : Perpetual s.workflow) : Kept s (run step s es) ∧ ∀ x ∈ texts ((run step s es).workflow "watchlist"),
      x ∈ texts (s.workflow "watchlist") ∨ ∃ e ∈ es, e.Proposes x := by
  induction es generalizing s with
  | nil => exact ⟨⟨hb,hp,hl,rfl,rfl,fun _ _ => rfl⟩,fun x hx => .inl hx⟩
  | cons e es ih =>
    rw [run_cons]
    obtain ⟨hkept,hfrom⟩ := step_kept hb hp hl e
    obtain ⟨hkept',hfrom'⟩ := ih (step s e) hkept.bounds hkept.pinned hkept.perpetual
    refine ⟨⟨hkept'.bounds,hkept'.pinned,hkept'.perpetual,hkept'.backend.trans hkept.backend,
      hkept'.proposals.trans hkept.proposals,fun k hk => (hkept'.other k hk).trans (hkept.other k hk)⟩,fun x hx => ?_⟩
    rcases hfrom' x hx with hx | ⟨e',he',hx⟩
    · exact (hfrom x hx).imp id fun h => ⟨e,List.mem_cons_self,h⟩
    · exact .inr ⟨e',List.mem_cons_of_mem _ he',hx⟩

/-- A screening that proposes a symbol more, applied twice: picked from by the user, and too late by the radar. -/
def sampleScreens : Keyed.Table ScreenRow.id :=
  Keyed.Table.ofRows [⟨"scr-1",.short,0,.done,some ⟨["BTCUSDT","SOLUSDT"],.empty,60,""⟩⟩]

def sampleState : State := ⟨Runtime.fresh .paper ⟨"0.5",5,.isolated,"15m",3,5,"3",true,true,false⟩ 0,sample,.empty⟩

def sampleApplications : List Application :=
  [⟨1000,sampleScreens,"scr-1",.user,some ["DOGEUSDT","SOLUSDT"]⟩,⟨50000000,sampleScreens,"scr-1",.auto,none⟩]

theorem radar_kept_twice : Kept sampleState (run step sampleState sampleApplications) ∧
    texts ((run step sampleState sampleApplications).workflow "watchlist")=["SOLUSDT"] :=
  ⟨(radar_kept sampleState sampleApplications sample_inBounds rfl
    ⟨["BTCUSDT","ETHUSDT"],rfl,by decide +kernel⟩).1,by decide +kernel⟩

end TradeGate.Screens
